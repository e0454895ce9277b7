import Gamebank.Ledger.Balances

/-!
# Voting for witnesses

`account_witness_proxy_evaluator`, `account_witness_vote_evaluator`,
`decline_voting_rights_evaluator` and `process_decline_voting_rights`.
-/

namespace Gamebank.Ledger

open Gamebank.Lib Gamebank.Protocol

/-- `GAMEBANK_MAX_ACCOUNT_WITNESS_VOTES`. -/
def maxAccountWitnessVotes : Nat := 30

/-- `GAMEBANK_OWNER_AUTH_RECOVERY_PERIOD`, in seconds. -/
def ownerAuthRecoveryPeriod : Nat := 2592000

/-- Addition to a `time_point_sec`. -/
def addSeconds (time seconds : Nat) : Nat := (time + seconds) % 4294967296

/-- The stake an account votes with: its own, then what reaches it over one,
two, three and four links of proxies. -/
def Account.stakeByDepth (a : Account) : Nat → Int
  | 0 => a.vestingShares
  | i + 1 => a.proxiedVsfVotes[i]?.getD 0

namespace Database

/-- An operation needs the authority of `name`. The authority of the null
account has a threshold and no key, and only its owner could change it, so
nobody can sign for it. -/
def signedBy (name : AccountName) : Except String Unit :=
  ensure (name ≠ nullAccount) "missing required active authority"

/-- `validate_account_name` refuses the empty name, among others. -/
def validateName (name : AccountName) : Except String Unit :=
  ensure (name ≠ "") "Account name is invalid"

/-- `clear_witness_votes`. -/
def clearWitnessVotes (s : Database) (name : AccountName) : Except String Database :=
  { s with witnessVotes := s.witnessVotes.filter fun v => v.account ≠ name }.modifyAccount name
    fun a => { a with witnessesVotedFor := 0 }

/-- The loop that follows the chain of proxies above `cprox`; `chain` are the
accounts met so far, `room` how many more may be met. -/
def checkProxyChain (s : Database) : Nat → List AccountName → Account → Except String Unit
  | room, chain, cprox =>
      if cprox.proxy = proxyToSelfAccount then .ok ()
      else do
        let next ← s.getAccount cprox.proxy
        ensure (!chain.contains next.name) "This proxy would create a proxy loop."
        match room with
        | 0 => .error "Proxy chain is too long."
        | room + 1 => checkProxyChain s room (next.name :: chain) next

/-- `account_witness_proxy_evaluator`. -/
def accountWitnessProxy (s : Database) (account proxy : AccountName) : Except String Database := do
  signedBy account
  ensure (proxy ≠ account) "Cannot proxy to self"
  let a ← s.getAccount account
  ensure (a.proxy ≠ proxy) "Proxy must change."
  ensure a.canVote "Account has declined the ability to vote and cannot proxy votes."
  let s ← adjustProxiedBy maxProxyRecursionDepth s account fun i => -a.stakeByDepth i
  if proxy ≠ proxyToSelfAccount then
    let newProxy ← s.getAccount proxy
    s.checkProxyChain (maxProxyRecursionDepth - 2) [account, newProxy.name] newProxy
    let s ← s.clearWitnessVotes account
    let s ← s.modifyAccount account fun a => { a with proxy := proxy }
    adjustProxiedBy maxProxyRecursionDepth s account a.stakeByDepth
  else
    s.modifyAccount account fun a => { a with proxy := proxy }

/-- `account_witness_vote_evaluator`. -/
def accountWitnessVote (s : Database) (account witness : AccountName) (approve : Bool) :
    Except String Database := do
  signedBy account
  let voter ← s.getAccount account
  ensure (voter.proxy = proxyToSelfAccount)
    "A proxy is currently set, please clear the proxy before voting for a witness."
  ensure (!approve || voter.canVote) "Account has declined its voting rights."
  let w ← s.getWitness witness
  let vote : WitnessVote := ⟨w.owner, account⟩
  if s.witnessVotes.contains vote then
    ensure (!approve) "Vote currently exists, user must indicate a desire to reject witness."
    let s ← s.adjustWitnessVote w.owner (-voter.witnessVoteWeight)
    let s ← s.modifyAccount account fun a =>
      { a with witnessesVotedFor := a.witnessesVotedFor - 1 }
    return { s with witnessVotes := s.witnessVotes.filter fun v => v ≠ vote }
  else
    ensure approve "Vote doesn't exist, user must indicate a desire to approve witness."
    ensure (voter.witnessesVotedFor < maxAccountWitnessVotes)
      "Account has voted for too many witnesses."
    let s := { s with witnessVotes := s.witnessVotes ++ [vote] }
    let s ← s.adjustWitnessVote w.owner voter.witnessVoteWeight
    s.modifyAccount account fun a => { a with witnessesVotedFor := a.witnessesVotedFor + 1 }

/-- `decline_voting_rights_evaluator`. -/
def declineVotingRights (s : Database) (account : AccountName) (decline : Bool) :
    Except String Database := do
  signedBy account
  let _ ← s.getAccount account
  let request := s.declineVotingRightsRequests.find? fun r => r.account = account
  if decline then
    ensure request.isNone "Cannot create new request because one already exists."
    return { s with
      declineVotingRightsRequests := s.declineVotingRightsRequests.create fun _ =>
        ⟨account, addSeconds s.headBlockTime ownerAuthRecoveryPeriod⟩ }
  else
    ensure request.isSome "Cannot cancel the request because it does not exist."
    return { s with
      declineVotingRightsRequests :=
        s.declineVotingRightsRequests.remove fun r => r.account = account }

/-- The body of `process_decline_voting_rights` for the request of `account`. -/
def processDeclineVotingRights (s : Database) (account : AccountName) : Except String Database := do
  let request ← require (s.declineVotingRightsRequests.find? fun r => r.account = account)
  ensure (request.effectiveDate ≤ s.headBlockTime) "itr->effective_date <= head_block_time()"
  let a ← s.getAccount account
  let s ← adjustProxiedBy maxProxyRecursionDepth s account fun i => -a.stakeByDepth i
  let s ← s.clearWitnessVotes account
  let s ← s.modifyAccount account fun a =>
    { a with canVote := false, proxy := proxyToSelfAccount }
  return { s with
    declineVotingRightsRequests :=
      s.declineVotingRightsRequests.remove fun r => r.account = account }

end Database

end Gamebank.Ledger
