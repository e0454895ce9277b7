import Gamebank.Lib.Due
import Gamebank.Ledger.WitnessSchedule
import Gamebank.Protocol.Authority
import Gamebank.Protocol.Validation

/-!
# Account recovery

The evaluators of `gamebank_evaluator.cpp` for account recovery and for the
authorities of an account, `update_owner_authority` and
`account_recovery_processing`, with the objects of `account_object.hpp` that
they read or write. The periods are those of the live network. A time is a
`time_point_sec`, which has 32 bits: a time that is later by a period may wrap.
-/

namespace Gamebank.Recovery

open Gamebank.Lib Gamebank.Protocol
open Gamebank.Ledger (AccountName Witness)

/-- `GAMEBANK_OWNER_AUTH_RECOVERY_PERIOD`, 30 days. -/
def ownerAuthRecoveryPeriod : Nat := 2592000

/-- `GAMEBANK_ACCOUNT_RECOVERY_REQUEST_EXPIRATION_PERIOD`, a day. -/
def accountRecoveryRequestExpirationPeriod : Nat := 86400

/-- `GAMEBANK_OWNER_UPDATE_LIMIT`, an hour. -/
def ownerUpdateLimit : Nat := 3600

/-- `GAMEBANK_OWNER_AUTH_HISTORY_TRACKING_START_BLOCK_NUM`. -/
def ownerAuthHistoryTrackingStartBlockNum : Nat := 3186477

/-- `GAMEBANK_TEMP_ACCOUNT`. -/
def tempAccount : AccountName := "temp"

/-- The `time_point_sec` of a time and a period. -/
def plusPeriod (time period : Nat) : Nat := (time + period) % 4294967296

/-! ## Objects -/

/-- What recovery needs of `account_object`. -/
structure Account where
  name : AccountName
  recoveryAccount : AccountName
  lastAccountRecovery : Nat
deriving DecidableEq

/-- `account_authority_object`. -/
structure AccountAuthority (Key : Type) where
  account : AccountName
  owner : Authority Key
  active : Authority Key
  posting : Authority Key
  lastOwnerUpdate : Nat
deriving DecidableEq

/-- `account_recovery_request_object`. -/
structure AccountRecoveryRequest (Key : Type) where
  id : Nat
  accountToRecover : AccountName
  newOwnerAuthority : Authority Key
  expires : Nat
deriving DecidableEq

/-- `owner_authority_history_object`. -/
structure OwnerAuthorityHistory (Key : Type) where
  id : Nat
  account : AccountName
  previousOwnerAuthority : Authority Key
  lastValidTime : Nat
deriving DecidableEq

/-- `change_recovery_account_request_object`. -/
structure ChangeRecoveryAccountRequest where
  id : Nat
  accountToRecover : AccountName
  recoveryAccount : AccountName
  effectiveOn : Nat
deriving DecidableEq

/-- The database. -/
structure State (Key : Type) where
  headBlockNumber : Nat
  headBlockTime : Nat
  witnesses : Table Witness
  accounts : Table Account
  authorities : Table (AccountAuthority Key)
  recoveryRequests : Table (AccountRecoveryRequest Key)
  ownerHistory : Table (OwnerAuthorityHistory Key)
  changeRequests : Table ChangeRecoveryAccountRequest
deriving DecidableEq

/-! ## Operations -/

/-- `request_account_recovery_operation`. -/
structure RequestAccountRecovery (Key : Type) where
  recoveryAccount : AccountName
  accountToRecover : AccountName
  newOwnerAuthority : Authority Key

/-- `recover_account_operation`. -/
structure RecoverAccount (Key : Type) where
  accountToRecover : AccountName
  newOwnerAuthority : Authority Key
  recentOwnerAuthority : Authority Key

/-- `change_recovery_account_operation`. -/
structure ChangeRecoveryAccount where
  accountToRecover : AccountName
  newRecoveryAccount : AccountName

/-- `account_update_operation`, without the memo key and the metadata. -/
structure AccountUpdate (Key : Type) where
  account : AccountName
  owner : Option (Authority Key)
  active : Option (Authority Key)
  posting : Option (Authority Key)

variable {Key : Type} [DecidableEq Key]

/-- The recovery period is over. -/
def OwnerAuthorityHistory.isInvalid (h : OwnerAuthorityHistory Key) (now : Nat) : Bool :=
  plusPeriod h.lastValidTime ownerAuthRecoveryPeriod < now

namespace State

def getAccount (s : State Key) (name : AccountName) : Except String Account :=
  Ledger.Database.require (s.accounts.find? fun a => a.name = name)

def getAuthority (s : State Key) (name : AccountName) : Except String (AccountAuthority Key) :=
  Ledger.Database.require (s.authorities.find? fun a => a.account = name)

/-- The first witness in the order of `by_vote_name`. -/
def topWitness (s : State Key) : Option AccountName :=
  (s.witnesses.rows.insertionSort Witness.byVoteName).head?.map Witness.owner

/-- The request for an account. -/
def requestFor (s : State Key) (name : AccountName) : Option (AccountRecoveryRequest Key) :=
  s.recoveryRequests.find? fun r => r.accountToRecover = name

/-- The change that is pending for an account. -/
def changeFor (s : State Key) (name : AccountName) : Option ChangeRecoveryAccountRequest :=
  s.changeRequests.find? fun r => r.accountToRecover = name

/-- The accounts of an authority must exist. -/
def checkAccounts (s : State Key) (auth : Authority Key) : Except String Unit :=
  auth.accountAuths.forM fun a => do
    let _ ← s.getAccount a.1

/-- `verify_authority_accounts_exist`. -/
def verifyAuthorityAccountsExist (s : State Key) (auth : Authority Key) (account : AccountName)
    (authClass : String) : Except String Unit :=
  auth.accountAuths.forM fun a =>
    ensure (s.accounts.find? fun b => b.name = a.1).isSome
      ("New " ++ authClass ++ " authority on account " ++ account ++
        " references non-existing account " ++ a.1)

/-- `update_owner_authority`. -/
def updateOwnerAuthority (s : State Key) (account : AccountName) (owner : Authority Key) :
    Except String (State Key) := do
  let auth ← s.getAuthority account
  let history :=
    if ownerAuthHistoryTrackingStartBlockNum ≤ s.headBlockNumber then
      s.ownerHistory.create fun id => ⟨id, account, auth.owner, s.headBlockTime⟩
    else s.ownerHistory
  return { s with
    ownerHistory := history
    authorities := s.authorities.modify (fun a => a.account = account) fun a =>
      { a with owner := owner, lastOwnerUpdate := s.headBlockTime } }

/-! ## Evaluators -/

/-- `request_account_recovery_evaluator`. -/
def requestAccountRecovery (s : State Key) (o : RequestAccountRecovery Key) :
    Except String (State Key) := do
  let account ← s.getAccount o.accountToRecover
  if account.recoveryAccount ≠ "" then
    ensure (account.recoveryAccount = o.recoveryAccount)
      "Cannot recover an account that does not have you as there recovery partner."
  else
    ensure (s.topWitness = some o.recoveryAccount)
      "Top witness must recover an account with no recovery partner."
  match s.requestFor o.accountToRecover with
  | none =>
      ensure (!o.newOwnerAuthority.isImpossible) "Cannot recover using an impossible authority."
      ensure (o.newOwnerAuthority.weightThreshold ≠ 0) "Cannot recover using an open authority."
      s.checkAccounts o.newOwnerAuthority
      return { s with
        recoveryRequests := s.recoveryRequests.create fun id =>
          ⟨id, o.accountToRecover, o.newOwnerAuthority,
            plusPeriod s.headBlockTime accountRecoveryRequestExpirationPeriod⟩ }
  | some request =>
      -- an open authority cancels the request
      if o.newOwnerAuthority.weightThreshold = 0 then
        return { s with recoveryRequests := s.recoveryRequests.remove fun r => r.id = request.id }
      else
        ensure (!o.newOwnerAuthority.isImpossible) "Cannot recover using an impossible authority."
        s.checkAccounts o.newOwnerAuthority
        return { s with
          recoveryRequests := s.recoveryRequests.modify (fun r => r.id = request.id) fun r =>
            { r with
              newOwnerAuthority := o.newOwnerAuthority
              expires := plusPeriod s.headBlockTime accountRecoveryRequestExpirationPeriod } }

/-- The loop over the history of an account. -/
def wasOwner (s : State Key) (name : AccountName) (owner : Authority Key) : Bool :=
  s.ownerHistory.rows.any fun h => h.account = name && h.previousOwnerAuthority = owner

/-- `recover_account_evaluator`. -/
def recoverAccount (s : State Key) (o : RecoverAccount Key) : Except String (State Key) := do
  let account ← s.getAccount o.accountToRecover
  ensure ((s.headBlockTime : Int) - account.lastAccountRecovery > ownerUpdateLimit)
    "Owner authority can only be updated once an hour."
  match s.requestFor o.accountToRecover with
  | none => .error "There are no active recovery requests for this account."
  | some request =>
      ensure (request.newOwnerAuthority = o.newOwnerAuthority)
        "New owner authority does not match recovery request."
      ensure (s.wasOwner o.accountToRecover o.recentOwnerAuthority)
        "Recent authority not found in authority history."
      let s := { s with recoveryRequests := s.recoveryRequests.remove fun r => r.id = request.id }
      let s ← s.updateOwnerAuthority account.name o.newOwnerAuthority
      return { s with
        accounts := s.accounts.modify (fun a => a.name = account.name) fun a =>
          { a with lastAccountRecovery := s.headBlockTime } }

/-- `change_recovery_account_evaluator`. -/
def changeRecoveryAccount (s : State Key) (o : ChangeRecoveryAccount) :
    Except String (State Key) := do
  let _ ← s.getAccount o.newRecoveryAccount
  let account ← s.getAccount o.accountToRecover
  match s.changeFor o.accountToRecover with
  | none =>
      return { s with
        changeRequests := s.changeRequests.create fun id =>
          ⟨id, o.accountToRecover, o.newRecoveryAccount,
            plusPeriod s.headBlockTime ownerAuthRecoveryPeriod⟩ }
  | some request =>
      if account.recoveryAccount ≠ o.newRecoveryAccount then
        return { s with
          changeRequests := s.changeRequests.modify (fun r => r.id = request.id) fun r =>
            { r with
              recoveryAccount := o.newRecoveryAccount
              effectiveOn := plusPeriod s.headBlockTime ownerAuthRecoveryPeriod } }
      else
        return { s with changeRequests := s.changeRequests.remove fun r => r.id = request.id }

/-- An authority that is set must name accounts that exist. -/
def verifySet (s : State Key) (auth : Option (Authority Key)) (account : AccountName)
    (authClass : String) : Except String Unit :=
  match auth with
  | none => .ok ()
  | some auth => s.verifyAuthorityAccountsExist auth account authClass

/-- `account_update_evaluator`. -/
def accountUpdate (s : State Key) (o : AccountUpdate Key) : Except String (State Key) := do
  ensure (o.account ≠ tempAccount) "Cannot update temp account."
  ensure (o.posting.all fun auth => auth.accountAuths.all fun a => isValidAccountName a.1)
    "is_valid_account_name( item.first )"
  let account ← s.getAccount o.account
  let auth ← s.getAuthority o.account
  let s ← match o.owner with
    | none => .ok s
    | some owner => do
        ensure ((s.headBlockTime : Int) - auth.lastOwnerUpdate > ownerUpdateLimit)
          "Owner authority can only be updated once an hour."
        s.verifyAuthorityAccountsExist owner o.account "owner"
        s.updateOwnerAuthority account.name owner
  s.verifySet o.active o.account "active"
  s.verifySet o.posting o.account "posting"
  return { s with
    authorities := s.authorities.modify (fun a => a.account = o.account) fun a =>
      { a with active := o.active.getD a.active, posting := o.posting.getD a.posting } }

/-! ## Processing -/

/-- The first request in the order of `by_expiration`, if it has expired. -/
def expiredRequest (s : State Key) : Option (AccountRecoveryRequest Key) :=
  s.recoveryRequests.firstDue AccountRecoveryRequest.expires AccountRecoveryRequest.accountToRecover
    s.headBlockTime

/-- The first history object by id, if it is invalid. -/
def invalidHistory (s : State Key) : Option (OwnerAuthorityHistory Key) :=
  s.ownerHistory.rows.head?.filter fun h => h.isInvalid s.headBlockTime

/-- The first change in the order of `by_effective_date`, if it is effective. -/
def effectiveChange (s : State Key) : Option ChangeRecoveryAccountRequest :=
  s.changeRequests.firstDue ChangeRecoveryAccountRequest.effectiveOn
    ChangeRecoveryAccountRequest.accountToRecover s.headBlockTime

/-- The body of the first loop. -/
def removeRequest (request : AccountRecoveryRequest Key) (s : State Key) :
    Except String (State Key) :=
  .ok { s with recoveryRequests := s.recoveryRequests.remove fun r => r.id = request.id }

/-- The body of the second loop. -/
def removeHistory (hist : OwnerAuthorityHistory Key) (s : State Key) : Except String (State Key) :=
  .ok { s with ownerHistory := s.ownerHistory.remove fun h => h.id = hist.id }

/-- The body of the third loop. -/
def applyChange (request : ChangeRecoveryAccountRequest) (s : State Key) :
    Except String (State Key) := do
  let account ← s.getAccount request.accountToRecover
  return { s with
    accounts := s.accounts.modify (fun a => a.name = account.name) fun a =>
      { a with recoveryAccount := request.recoveryAccount }
    changeRequests := s.changeRequests.remove fun r => r.id = request.id }

/-- `account_recovery_processing`. -/
def accountRecoveryProcessing (s : State Key) : Except String (State Key) := do
  let s ← drain expiredRequest removeRequest (s.recoveryRequests.rows.length + 1) s
  let s ← drain invalidHistory removeHistory (s.ownerHistory.rows.length + 1) s
  drain effectiveChange applyChange (s.changeRequests.rows.length + 1) s

/-- A block of a time: `update_global_dynamic_data` sets the head, and the
tables are processed. The operations of the block are before that. -/
def applyBlock (s : State Key) (time : Nat) : Except String (State Key) :=
  { s with
    headBlockNumber := s.headBlockNumber + 1, headBlockTime := time }.accountRecoveryProcessing

end State

end Gamebank.Recovery
