import Gamebank.Protocol.Authority

/-!
# Checking signatures

`sign_state.cpp` and `verify_authority` of `transaction_util.hpp`. An account
whose authority was satisfied is remembered in `approvedBy`, and counts from
then on wherever it stands, also where the recursion goes no deeper.
-/

namespace Gamebank.Protocol

/-- What a `sign_state` refers to. -/
structure SignContext (Key : Type) where
  getActive : String → Authority Key
  availableKeys : List Key
  maxRecursion : Nat

/-- What a `sign_state` changes. -/
structure SignState (Key : Type) where
  providedSignatures : List (Key × Bool)
  approvedBy : List String

variable {Key : Type} [DecidableEq Key]

namespace SignContext

/-- `signed_by`. -/
def signedBy (c : SignContext Key) (k : Key) (s : SignState Key) : Bool × SignState Key :=
  if k ∈ s.providedSignatures.map Prod.fst then
    (true, { s with
      providedSignatures :=
        s.providedSignatures.map fun sig => if sig.1 = k then (k, true) else sig })
  else if k ∈ c.availableKeys then
    (true, { s with providedSignatures := (k, true) :: s.providedSignatures })
  else (false, s)

/-- The loop of `check_authority` over the keys; there is no total left when it
returns `true`. -/
def checkKeys (c : SignContext Key) (threshold : UInt32) :
    List (Key × UInt16) → UInt32 → SignState Key → Option UInt32 × SignState Key
  | [], total, s => (some total, s)
  | (k, weight) :: rest, total, s =>
      match c.signedBy k s with
      | (true, s) =>
          if threshold ≤ total + weight.toUInt32 then (none, s)
          else checkKeys c threshold rest (total + weight.toUInt32) s
      | (false, s) => checkKeys c threshold rest total s

/-- The loop over the accounts; `check` is the call at the next depth, which is
not made where `depth == max_recursion`. -/
def checkAccounts (threshold : UInt32)
    (check : Option (String → SignState Key → Bool × SignState Key)) :
    List (String × UInt16) → UInt32 → SignState Key → Bool × SignState Key
  | [], total, s => (threshold ≤ total, s)
  | (a, weight) :: rest, total, s =>
      if a ∈ s.approvedBy then
        if threshold ≤ total + weight.toUInt32 then (true, s)
        else checkAccounts threshold check rest (total + weight.toUInt32) s
      else
        match check with
        | none => checkAccounts threshold check rest total s
        | some call =>
            match call a s with
            | (true, s) =>
                let s := { s with approvedBy := a :: s.approvedBy }
                if threshold ≤ total + weight.toUInt32 then (true, s)
                else checkAccounts threshold check rest (total + weight.toUInt32) s
            | (false, s) => checkAccounts threshold check rest total s

/-- `check_authority` of an authority; `left` is `max_recursion - depth`. -/
def checkAuthorityLeft (c : SignContext Key) :
    Nat → Authority Key → SignState Key → Bool × SignState Key
  | left, auth, s =>
      match c.checkKeys auth.weightThreshold auth.keyAuths 0 s with
      | (none, s) => (true, s)
      | (some total, s) =>
          checkAccounts auth.weightThreshold
            (match left with
              | 0 => none
              | left + 1 => some fun a s => c.checkAuthorityLeft left (c.getActive a) s)
            auth.accountAuths total s

/-- `check_authority` of an authority, at depth zero. -/
def checkAuthority (c : SignContext Key) (auth : Authority Key) (s : SignState Key) :
    Bool × SignState Key :=
  c.checkAuthorityLeft c.maxRecursion auth s

/-- `check_authority` of an account. -/
def checkAccount (c : SignContext Key) (id : String) (s : SignState Key) : Bool × SignState Key :=
  if id ∈ s.approvedBy then (true, s) else c.checkAuthority (c.getActive id) s

end SignContext

/-- The constructor of `sign_state`. -/
def SignState.make (sigs : List Key) : SignState Key :=
  ⟨sigs.map fun key => (key, false), ["temp"]⟩

/-- `remove_unused_signatures`. -/
def SignState.removeUnusedSignatures (s : SignState Key) : Bool × SignState Key :=
  let used := s.providedSignatures.filter fun sig => sig.2
  (used.length ≠ s.providedSignatures.length, { s with providedSignatures := used })

/-! ## Verifying a transaction -/

/-- What the operations of a transaction require, as `get_required_auth_visitor`
collects it. -/
structure Required (Key : Type) where
  active : List String
  owner : List String
  posting : List String
  other : List (Authority Key)

/-- The two forms of `check_authority`. -/
inductive Call (Key : Type) where
  | authority (auth : Authority Key)
  | account (id : String)
deriving DecidableEq

/-- The `sign_state` of a verification, with the calls of `check_authority` that
were made on it and what they returned. -/
structure Verification (Key : Type) where
  state : SignState Key
  calls : List (Call Key × Bool)

namespace Verification

def callAuthority (c : SignContext Key) (auth : Authority Key) (v : Verification Key) :
    Bool × Verification Key :=
  let (result, s) := c.checkAuthority auth v.state
  (result, ⟨s, v.calls ++ [(.authority auth, result)]⟩)

def callAccount (c : SignContext Key) (id : String) (v : Verification Key) :
    Bool × Verification Key :=
  let (result, s) := c.checkAccount id v.state
  (result, ⟨s, v.calls ++ [(.account id, result)]⟩)

/-- `first || second`. -/
def orElse (first second : Verification Key → Bool × Verification Key) (v : Verification Key) :
    Bool × Verification Key :=
  match first v with
  | (true, v) => (true, v)
  | (false, v) => second v

/-- A loop that asserts `check` for every element. -/
def requireAll {α : Type} (check : α → Verification Key → Bool × Verification Key)
    (message : String) : List α → Verification Key → Except String Unit × Verification Key
  | [], v => (.ok (), v)
  | a :: rest, v =>
      match check a v with
      | (true, v) => requireAll check message rest v
      | (false, v) => (.error message, v)

/-- What follows is done unless there was an exception. -/
def thenDo (r : Except String Unit × Verification Key)
    (next : Verification Key → Except String Unit × Verification Key) :
    Except String Unit × Verification Key :=
  match r with
  | (.ok (), v) => next v
  | (.error e, v) => (.error e, v)

/-- The last assertion. -/
def noUnusedSignatures (v : Verification Key) : Except String Unit × Verification Key :=
  let (removed, s) := v.state.removeUnusedSignatures
  (if removed then .error "Unnecessary signature(s) detected" else .ok (), { v with state := s })

end Verification

open Verification in
/-- `verify_authority`. -/
def verifyAuthority (getActive getOwner getPosting : String → Authority Key) (sigs : List Key)
    (maxRecursion : Nat) (required : Required Key)
    (activeApprovals ownerApprovals postingApprovals : List String) :
    Except String Unit × Verification Key :=
  let start : SignState Key := .make sigs
  if required.posting ≠ [] then
    let c : SignContext Key := ⟨getPosting, [], maxRecursion⟩
    let v : Verification Key :=
      ⟨{ start with approvedBy := postingApprovals ++ start.approvedBy }, []⟩
    if required.active = [] ∧ required.owner = [] ∧ required.other.length = 0 then
      thenDo (requireAll (fun id => orElse (callAccount c id)
          (orElse (callAuthority c (getActive id)) (callAuthority c (getOwner id))))
        "Missing Posting Authority" required.posting v) noUnusedSignatures
    else (.error "required_active.size() == 0", v)
  else
    let c : SignContext Key := ⟨getActive, [], maxRecursion⟩
    let v : Verification Key :=
      ⟨{ start with approvedBy := ownerApprovals ++ (activeApprovals ++ start.approvedBy) }, []⟩
    thenDo (requireAll (callAuthority c) "Missing Authority" required.other v) fun v =>
    thenDo (requireAll (fun id => orElse (callAccount c id) (callAuthority c (getOwner id)))
      "Missing Active Authority" required.active v) fun v =>
    thenDo (requireAll (fun id v => if id ∈ ownerApprovals then (true, v)
        else callAuthority c (getOwner id) v)
      "Missing Owner Authority" required.owner v) noUnusedSignatures

end Gamebank.Protocol
