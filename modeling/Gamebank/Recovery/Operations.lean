import Gamebank.Lib.Keyed
import Gamebank.Recovery.Processing

/-!
# What the operations do

An operation that succeeds does one of four things to the recovery requests,
and one of four to the pending changes: it leaves them, or makes, replaces or
removes the one of its account. The history grows by the owner authority that
is replaced, if at all, and recovery accounts stay what they are (`apply_spec`).
-/

namespace Gamebank.Recovery

open Gamebank.Lib Gamebank.Protocol
open Gamebank.Ledger (AccountName)
open Gamebank.Ledger.Database (require_eq_ok)

/-- The operations on the recovery and the authorities of an account. -/
inductive Operation (Key : Type) where
  | requestAccountRecovery (o : RequestAccountRecovery Key)
  | recoverAccount (o : RecoverAccount Key)
  | changeRecoveryAccount (o : ChangeRecoveryAccount)
  | accountUpdate (o : AccountUpdate Key)

variable {Key : Type}

namespace Operation

/-- The account whose recovery request is set or removed. -/
def requestTarget : Operation Key → Option AccountName
  | .requestAccountRecovery o => some o.accountToRecover
  | .recoverAccount o => some o.accountToRecover
  | .changeRecoveryAccount _ => none
  | .accountUpdate _ => none

/-- The account whose pending change is set or removed. -/
def changeTarget : Operation Key → Option AccountName
  | .changeRecoveryAccount o => some o.accountToRecover
  | _ => none

end Operation

namespace State

/-- The owner authority of an account. -/
def owner (s : State Key) (name : AccountName) : Option (Authority Key) :=
  (s.authorities.find? fun a => a.account = name).map AccountAuthority.owner

/-- The recovery account of an account, or the top witness if it has none. -/
def IsPartner (s : State Key) (name partner : AccountName) : Prop :=
  ∃ account, s.getAccount name = .ok account ∧
    if account.recoveryAccount ≠ "" then account.recoveryAccount = partner
    else s.topWitness = some partner

/-- A recovery request by the partner, and not one that cancels. -/
structure Requests (s : State Key) (o : RequestAccountRecovery Key) : Prop where
  partner : s.IsPartner o.accountToRecover o.recoveryAccount
  closed : o.newOwnerAuthority.weightThreshold ≠ 0

/-- The recovery request that an operation makes. -/
def newRequest (s : State Key) (o : RequestAccountRecovery Key) (id : Nat) :
    AccountRecoveryRequest Key :=
  ⟨id, o.accountToRecover, o.newOwnerAuthority,
    plusPeriod s.headBlockTime accountRecoveryRequestExpirationPeriod⟩

/-- The change that an operation makes. -/
def newChange (s : State Key) (o : ChangeRecoveryAccount) (id : Nat) :
    ChangeRecoveryAccountRequest :=
  ⟨id, o.accountToRecover, o.newRecoveryAccount, plusPeriod s.headBlockTime ownerAuthRecoveryPeriod⟩

/-- What an operation does to the recovery requests. -/
inductive RequestsStep (s : State Key) :
    Operation Key → Table (AccountRecoveryRequest Key) → Prop where
  | keep {o : Operation Key} (h : o.requestTarget = none) : RequestsStep s o s.recoveryRequests
  | create (o : RequestAccountRecovery Key) (h : s.Requests o)
      (hnone : s.requestFor o.accountToRecover = none) :
      RequestsStep s (.requestAccountRecovery o) (s.recoveryRequests.create (s.newRequest o))
  | modify (o : RequestAccountRecovery Key) (h : s.Requests o)
      {request : AccountRecoveryRequest Key}
      (hsome : s.requestFor o.accountToRecover = some request) :
      RequestsStep s (.requestAccountRecovery o)
        (s.recoveryRequests.modify (fun r => r.id = request.id) fun r =>
          { r with
            newOwnerAuthority := o.newOwnerAuthority
            expires := plusPeriod s.headBlockTime accountRecoveryRequestExpirationPeriod })
  | remove {o : Operation Key} {name : AccountName} {request : AccountRecoveryRequest Key}
      (h : o.requestTarget = some name) (hsome : s.requestFor name = some request) :
      RequestsStep s o (s.recoveryRequests.remove fun r => r.id = request.id)

/-- What an operation does to the pending changes. -/
inductive ChangesStep (s : State Key) :
    Operation Key → Table ChangeRecoveryAccountRequest → Prop where
  | keep {o : Operation Key} (h : o.changeTarget = none) : ChangesStep s o s.changeRequests
  | create (o : ChangeRecoveryAccount)
      (hexists : (s.accounts.find? fun a => a.name = o.accountToRecover).isSome)
      (hnone : s.changeFor o.accountToRecover = none) :
      ChangesStep s (.changeRecoveryAccount o) (s.changeRequests.create (s.newChange o))
  | modify (o : ChangeRecoveryAccount) {request : ChangeRecoveryAccountRequest}
      (hsome : s.changeFor o.accountToRecover = some request) :
      ChangesStep s (.changeRecoveryAccount o)
        (s.changeRequests.modify (fun r => r.id = request.id) fun r =>
          { r with
            recoveryAccount := o.newRecoveryAccount
            effectiveOn := plusPeriod s.headBlockTime ownerAuthRecoveryPeriod })
  | remove (o : ChangeRecoveryAccount) {request : ChangeRecoveryAccountRequest}
      (hsome : s.changeFor o.accountToRecover = some request) :
      ChangesStep s (.changeRecoveryAccount o)
        (s.changeRequests.remove fun r => r.id = request.id)

/-- The history grows by the owner authority that is replaced. -/
def HistoryStep (s : State Key) (t : Table (OwnerAuthorityHistory Key)) : Prop :=
  t = s.ownerHistory ∨ ∃ name auth, s.owner name = some auth ∧
    t = s.ownerHistory.create fun id => ⟨id, name, auth, s.headBlockTime⟩

/-- The accounts stay, and so do their recovery accounts. -/
def KeepsAccounts (s s' : State Key) : Prop :=
  ∀ name, (s'.accounts.find? fun a => a.name = name).map Account.recoveryAccount =
    (s.accounts.find? fun a => a.name = name).map Account.recoveryAccount

/-- What an operation does. -/
structure OperationStep (s : State Key) (o : Operation Key) (s' : State Key) : Prop where
  number : s'.headBlockNumber = s.headBlockNumber
  time : s'.headBlockTime = s.headBlockTime
  requests : s.RequestsStep o s'.recoveryRequests
  history : s.HistoryStep s'.ownerHistory
  changes : s.ChangesStep o s'.changeRequests
  accounts : s.KeepsAccounts s'

/-! ## The evaluators -/

/-- A request is set, replaced or cancelled. -/
theorem requestAccountRecovery_spec (s : State Key) (o : RequestAccountRecovery Key) :
    Returns (s.requestAccountRecovery o) (s.OperationStep (.requestAccountRecovery o)) := by
  have hstep : ∀ {requests}, s.RequestsStep (.requestAccountRecovery o) requests →
      s.OperationStep (.requestAccountRecovery o) { s with recoveryRequests := requests } :=
    fun h => ⟨rfl, rfl, h, Or.inl rfl, .keep rfl, fun _ => rfl⟩
  unfold requestAccountRecovery
  refine .bind_eq fun account haccount => ?_
  extract_lets rest
  have hrest : s.IsPartner o.accountToRecover o.recoveryAccount → Returns (rest ⟨⟩)
      (s.OperationStep (.requestAccountRecovery o)) := by
    intro hpartner
    dsimp only [rest]
    split
    next hnone =>
      refine .ensure fun _ => .ensure fun hclosed => .bind_any fun _ => .pure (hstep ?_)
      exact .create o ⟨hpartner, of_decide_eq_true hclosed⟩ hnone
    next request hsome =>
      refine .ite (fun _ => .pure (hstep (.remove rfl hsome))) fun hclosed => ?_
      exact .ensure fun _ => .bind_any fun _ => .pure (hstep (.modify o ⟨hpartner, hclosed⟩ hsome))
  refine .ite (fun hrecovery => .ensure fun hmatch => hrest ?_) fun hrecovery =>
    .ensure fun hmatch => hrest ?_
  · exact ⟨account, haccount, by rw [if_pos hrecovery]; exact of_decide_eq_true hmatch⟩
  · exact ⟨account, haccount, by rw [if_neg hrecovery]; exact of_decide_eq_true hmatch⟩

/-- A change is set, replaced or removed. -/
theorem changeRecoveryAccount_spec (s : State Key) (o : ChangeRecoveryAccount) :
    Returns (s.changeRecoveryAccount o) (s.OperationStep (.changeRecoveryAccount o)) := by
  have hstep : ∀ {changes}, s.ChangesStep (.changeRecoveryAccount o) changes →
      s.OperationStep (.changeRecoveryAccount o) { s with changeRequests := changes } :=
    fun h => ⟨rfl, rfl, .keep rfl, Or.inl rfl, h, fun _ => rfl⟩
  unfold changeRecoveryAccount
  refine .bind_any fun _ => .bind_eq fun account haccount => ?_
  have hexists : (s.accounts.find? fun a => a.name = o.accountToRecover).isSome := by
    rw [require_eq_ok.mp haccount]
    rfl
  split
  next hnone => exact .pure (hstep (.create o hexists hnone))
  next request hsome =>
    exact .ite (fun _ => .pure (hstep (.modify o hsome))) fun _ => .pure (hstep (.remove o hsome))

/-- The owner authority is replaced, and recorded. -/
theorem updateOwnerAuthority_spec (s : State Key) (name : AccountName) (owner : Authority Key) :
    Returns (s.updateOwnerAuthority name owner) fun t =>
      s.HistoryStep t.ownerHistory ∧
        t = { s with ownerHistory := t.ownerHistory, authorities := t.authorities } := by
  unfold updateOwnerAuthority
  refine .bind_eq fun auth hauth => .pure ⟨?_, rfl⟩
  dsimp only
  split
  · refine Or.inr ⟨name, auth.owner, ?_, rfl⟩
    rw [State.owner, require_eq_ok.mp hauth]
    rfl
  · exact Or.inl rfl

theorem accountUpdate_spec (s : State Key) (o : AccountUpdate Key) :
    Returns (s.accountUpdate o) (s.OperationStep (.accountUpdate o)) := by
  unfold accountUpdate
  refine .ensure fun _ => .ensure fun _ => .bind_any fun account => .bind_any fun auth => ?_
  have hrest : ∀ t : State Key, s.HistoryStep t.ownerHistory →
      t = { s with ownerHistory := t.ownerHistory, authorities := t.authorities } →
      Returns (do
        t.verifySet o.active o.account "active"
        t.verifySet o.posting o.account "posting"
        return { t with
          authorities := t.authorities.modify (fun a => a.account = o.account) fun a =>
            { a with active := o.active.getD a.active, posting := o.posting.getD a.posting } })
        (s.OperationStep (.accountUpdate o)) := by
    intro t hhistory ht
    refine .bind_any fun _ => .bind_any fun _ => .pure ?_
    rw [ht]
    exact ⟨rfl, rfl, .keep rfl, hhistory, .keep rfl, fun _ => rfl⟩
  split
  · exact .bind (.ok rfl) fun t ht => hrest t (ht ▸ Or.inl rfl) (ht ▸ rfl)
  · exact .ensure fun _ => .bind_any fun _ => .bind (updateOwnerAuthority_spec s _ _) fun t ht =>
      hrest t ht.1 ht.2

variable [DecidableEq Key]

/-- One of the evaluators. -/
def apply (s : State Key) : Operation Key → Except String (State Key)
  | .requestAccountRecovery o => s.requestAccountRecovery o
  | .recoverAccount o => s.recoverAccount o
  | .changeRecoveryAccount o => s.changeRecoveryAccount o
  | .accountUpdate o => s.accountUpdate o

theorem recoverAccount_spec (s : State Key) (o : RecoverAccount Key) :
    Returns (s.recoverAccount o) (s.OperationStep (.recoverAccount o)) := by
  unfold recoverAccount
  refine .bind_eq fun account haccount => .ensure fun _ => ?_
  split
  next => exact .error
  next request hsome =>
    refine .ensure fun _ => .ensure fun _ => .bind (updateOwnerAuthority_spec _ _ _)
      fun t ⟨hhistory, ht⟩ => .pure ?_
    rw [ht]
    refine ⟨rfl, rfl, .remove rfl hsome, hhistory, .keep rfl, fun name => ?_⟩
    exact map_find?_modifyFirst (q := fun a : Account => a.name = name)
      (g := Account.recoveryAccount)
      (f := fun a => { a with lastAccountRecovery := s.headBlockTime }) (fun _ => rfl)
        (fun _ => rfl) _

theorem apply_spec (s : State Key) (o : Operation Key) :
    Returns (s.apply o) (s.OperationStep o) := by
  cases o with
  | requestAccountRecovery o => exact requestAccountRecovery_spec s o
  | recoverAccount o => exact recoverAccount_spec s o
  | changeRecoveryAccount o => exact changeRecoveryAccount_spec s o
  | accountUpdate o => exact accountUpdate_spec s o

end State

end Gamebank.Recovery
