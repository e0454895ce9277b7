import Gamebank.Contract.Bandwidth
import Gamebank.Stake.Power

/-!
# Names of accounts and contracts

`contract_deploy` looks whether its name is taken by an account or by another
contract; the operations that create accounts look for accounts only. So a
contract and an account can come to have one name, and they do exactly when
an account is created under the name of a contract (`names_stay_apart`,
`account_named_as_contract`).

Mining is disabled, so accounts are created by three operations, of which
`account_create` has two branches. Every other operation and routine leaves
the names alone.
-/

namespace Gamebank.Ledger.Contracts

open Gamebank.Lib Gamebank.Protocol Database

inductive Call where
  | accountCreate (creator newAccountName : AccountName) (accountAuths : List AccountName)
      (fee : Int)
  | accountCreateWithDelegation (creator newAccountName : AccountName)
      (accountAuths : List AccountName) (fee delegation : Int)
  | createClaimedAccount (creator newAccountName : AccountName) (accountAuths : List AccountName)
  | contract (op : ContractOperation)
  | other

/-- The account that is created. -/
def Call.newAccount : Call → Option AccountName
  | .accountCreate _ name _ _ => some name
  | .accountCreateWithDelegation _ name _ _ _ => some name
  | .createClaimedAccount _ name _ => some name
  | .contract _ => none
  | .other => none

/-- What a call does on a node with these handlers. -/
def perform (env : Environment) (handlers : Handlers) (fuel : Nat) (s : Database) :
    Call → Except String Database
  | .accountCreate creator name auths fee => s.accountCreate creator name auths fee
  | .accountCreateWithDelegation creator name auths fee delegation =>
      s.accountCreateWithDelegation creator name auths fee delegation
  | .createClaimedAccount creator name auths => s.createClaimedAccount creator name auths
  | .contract op => s.applyContract env handlers fuel op
  | .other => .ok s

def accountNames (s : Database) : List AccountName := s.accounts.rows.map Account.name

def contractNames (s : Database) : List AccountName := s.contracts.rows.map Contract.name

/-- No name is given or taken away. -/
structure SameNames (s t : Database) : Prop where
  accounts : accountNames t = accountNames s
  contracts : contractNames t = contractNames s

inductive Step (env : Environment) (s : Database) : Call → Database → Prop
  | call {c : Call} {t : Database} (handlers : Handlers) (fuel : Nat)
      (h : perform env handlers fuel s c = .ok t) : Step env s c t
  | other {t : Database} (h : SameNames s t) : Step env s .other t

/-- The states reached from genesis by calls that meet `C` where they are made. -/
inductive Reachable (env : Environment) (C : Database → Call → Prop) : Database → Prop
  | genesis (initialSupply : Int) : Reachable env C (Database.genesis initialSupply)
  | step {s t : Database} {c : Call} (hs : Reachable env C s) (hc : C s c) (h : Step env s c t) :
      Reachable env C t

variable {env : Environment} {s t u : Database}

/-! ## What a contract leaves alone -/

namespace SameNames

theorem refl (s : Database) : SameNames s s := ⟨rfl, rfl⟩

theorem trans (h : SameNames s t) (h' : SameNames t u) : SameNames s u :=
  ⟨h'.accounts.trans h.accounts, h'.contracts.trans h.contracts⟩

theorem modifyAccount (h : SameNames s t) (name : AccountName) {f : Account → Account}
    (hf : ∀ a, (f a).name = a.name) : Returns (t.modifyAccount name f) (SameNames s) := by
  refine (modifyAccount_spec t name f).mono fun u ⟨a, he⟩ => h.trans ⟨?_, ?_⟩
  · exact he.replaces.map_eq (hf a)
  · unfold contractNames
    rw [he.rest]

theorem modifyProps (h : SameNames s t) (f : GlobalProperties → GlobalProperties) :
    Returns (t.modifyProps f) (SameNames s) := by
  refine (modifyProps_spec t f).mono fun u ⟨_, hu⟩ => h.trans ?_
  rw [hu]
  exact ⟨rfl, rfl⟩

end SameNames

/-- A contract without its balance. -/
def unfunded (c : Contract) : Contract := { c with balance := 0 }

/-- Of the accounts and contracts only the balances may have changed, and the
head block is the same. -/
structure Undisturbed (s t : Database) : Prop where
  accounts : accountNames t = accountNames s
  contracts : t.contracts.rows.map unfunded = s.contracts.rows.map unfunded
  headBlockTime : t.headBlockTime = s.headBlockTime

namespace Undisturbed

theorem refl (s : Database) : Undisturbed s s := ⟨rfl, rfl, rfl⟩

theorem trans (h : Undisturbed s t) (h' : Undisturbed t u) : Undisturbed s u :=
  ⟨h'.accounts.trans h.accounts, h'.contracts.trans h.contracts,
    h'.headBlockTime.trans h.headBlockTime⟩

theorem sameNames (h : Undisturbed s t) : SameNames s t :=
  ⟨h.accounts, map_eq_of_map_eq h.contracts fun _ => rfl⟩

theorem modifyAccount (h : Undisturbed s t) (name : AccountName) {f : Account → Account}
    (hf : ∀ a, (f a).name = a.name) : Returns (t.modifyAccount name f) (Undisturbed s) := by
  refine (modifyAccount_spec t name f).mono fun u ⟨a, he⟩ => h.trans ⟨?_, ?_, ?_⟩
  · exact he.replaces.map_eq (hf a)
  · rw [he.rest]
  · rw [he.rest]
    rfl

theorem payInterest (h : Undisturbed s t) (i : Accrual) :
    Returns (t.payInterest i) (Undisturbed s) := by
  unfold Database.payInterest
  refine .ite (fun _ => .bind_any fun _ => .ensure fun _ => ?_) fun _ => .ok h
  refine (modifyProps_spec t _).mono fun u ⟨_, hu⟩ => h.trans ?_
  rw [hu]
  exact ⟨rfl, rfl, rfl⟩

theorem adjustBalance (h : Undisturbed s t) (name : AccountName) (delta : Asset) :
    Returns (t.adjustBalance name delta) (Undisturbed s) := by
  unfold Database.adjustBalance modifyBalance
  refine .bind_any fun a => ?_
  cases delta.symbol with
  | gbc => exact .ensure fun _ => h.modifyAccount name fun _ => rfl
  | gbd =>
      refine .bind_any fun i => .bind (h.payInterest i) fun u hu => .ensure fun _ => ?_
      exact hu.modifyAccount name fun _ => rfl
  | gbs => exact .ensure fun _ => h.modifyAccount name fun _ => rfl

theorem adjustContractBalance (h : Undisturbed s t) (name : AccountName) (delta : Asset) :
    Returns (t.adjustContractBalance name delta) (Undisturbed s) := by
  unfold Database.adjustContractBalance
  refine .bind_eq fun c hc => ?_
  cases delta.symbol with
  | gbc =>
      refine .ensure fun _ => .pure (h.trans ⟨rfl, ?_, rfl⟩)
      exact (replaces_modifyFirst (require_eq_ok.mp hc)
        fun c => { c with balance := c.balance + delta.amount }).map_eq rfl
  | gbd => exact .error
  | gbs => exact .error

theorem contractTransfer (h : Undisturbed s t) (contractName callerName : AccountName)
    (fromAccount toAccount : String) (num : Int) :
    Returns (t.contractTransfer contractName callerName fromAccount toAccount num)
      (Undisturbed s) := by
  unfold Database.contractTransfer
  refine .ensure fun _ => .ite (fun _ => ?_) fun _ => .ite (fun _ => ?_) fun _ => .error
  · refine .bind_any fun _ => .ensure fun _ => .ensure fun _ =>
      .bind (h.adjustBalance _ _) fun u hu => hu.adjustContractBalance _ _
  · refine .bind_any fun _ => .ensure fun _ =>
      .bind (h.adjustContractBalance _ _) fun u hu => hu.adjustBalance _ _

theorem hostCall (h : Undisturbed s t) (launch : Launch) (call : HostCall) :
    Returns (t.hostCall env launch call) fun r => Undisturbed s r.1 := by
  cases call with
  | getCreator => exact .bind_any fun _ => .pure h
  | getData => exact .bind_any fun _ => .pure h
  | getUserData userName => exact .bind_any fun _ => .pure h
  | transfer sender recipient num =>
      exact .bind (h.contractTransfer _ _ sender recipient num) fun u hu => .pure hu
  | emit key data => exact .ok h
  | headBlockNum => exact .ok h
  | getBlockHash blockNum blockCount interval => exact .bind_any fun _ => .pure h
  | isAccount userName => exact .ok h

/-- Turn by turn. -/
theorem runLua {launch : Launch} {limits : Limits} {fuel : Nat} {usage : Usage}
    {state : env.lua.State} (h : Undisturbed s t) :
    Returns (t.runLua env launch limits fuel usage state) fun r => Undisturbed s r.1 := by
  induction fuel generalizing t usage state with
  | zero => exact .error
  | succ fuel ih =>
      unfold Database.runLua
      cases env.lua.turn state with
      | opcode next => exact .ensure fun _ => ih h
      | allocate memory next => exact .ensure fun _ => ih h
      | host call resume => exact .bind (h.hostCall launch call) fun r hr => ih hr
      | done data => exact .ok h
      | error message => exact .error

theorem saveModifiedData (h : Undisturbed s t) (contractName : AccountName)
    (data : List (String × String)) :
    Undisturbed s (Database.saveModifiedData contractName t data) := by
  unfold Database.saveModifiedData
  induction data generalizing t with
  | nil => exact h
  | cons row rest ih =>
      rw [List.foldl_cons]
      apply ih
      refine h.trans ?_
      unfold saveModifiedRow
      dsimp only
      split <;> exact ⟨rfl, rfl, rfl⟩

theorem execute (h : Undisturbed s t) {launch : Launch} {limits : Limits} {fuel : Nat} :
    Returns (t.execute env launch limits fuel) fun r => Undisturbed s r.1 := by
  unfold Database.execute
  refine .bind h.runLua fun r hr => .pure ?_
  exact hr.saveModifiedData launch.contractName r.2.2

end Undisturbed

theorem SameNames.createVesting (h : SameNames s t) (name : AccountName) (liquid : Asset) :
    Returns (t.createVesting name liquid) (SameNames s) := by
  unfold Database.createVesting
  refine .ensure fun _ => .bind_any fun price => .bind_any fun new =>
    .bind ((Undisturbed.refl t).adjustBalance name new) fun u hu =>
    .bind ((h.trans hu.sameNames).modifyProps _) fun v hv => ?_
  refine ((OnlyVotes.refl v).adjustProxiedWitnessVotes name _).mono fun w hw => hv.trans ⟨?_, ?_⟩
  · exact map_eq_of_map_eq hw.accounts fun _ => rfl
  · unfold contractNames
    rw [hw.rest]

/-! ## New names -/

/-- `t` is `s` with the account `name` created. -/
structure AddsAccount (s t : Database) (name : AccountName) : Prop where
  accounts : accountNames t = accountNames s ++ [name]
  contracts : contractNames t = contractNames s

theorem AddsAccount.sameNames {name : AccountName} (h : AddsAccount s t name) (h' : SameNames t u) :
    AddsAccount s u name :=
  ⟨h'.accounts.trans h.accounts, h'.contracts.trans h.contracts⟩

theorem createAccount_adds (h : SameNames s t) (name creator : AccountName) (received : Int) :
    Returns (t.createAccount name creator received) fun u => AddsAccount s u name := by
  refine (createAccount_spec t name creator received).mono fun u ⟨_, a, ha, hu⟩ => ?_
  have hname : a.name = name := congrArg Account.name ha
  rw [hu]
  refine ⟨?_, h.contracts⟩
  show (t.accounts.rows ++ [a]).map Account.name = _
  rw [List.map_append, List.map_singleton, hname]
  exact congrArg (· ++ [name]) h.accounts

theorem createDelegation_sameNames (s : Database) (delegator delegatee : AccountName)
    (shares : Int) : SameNames s (s.createDelegation delegator delegatee shares) := by
  unfold createDelegation
  split <;> exact ⟨rfl, rfl⟩

theorem accountCreate_adds (s : Database) (creator name : AccountName) (auths : List AccountName)
    (fee : Int) :
    Returns (s.accountCreate creator name auths fee) fun t => AddsAccount s t name := by
  unfold accountCreate signedBy validateName verifyAuthorityAccountsExist
  refine .ensure fun _ => .ensure fun _ => .ensure fun _ => .bind_any fun c => .ensure fun _ =>
    .ite (fun _ => ?_) fun _ => ?_
  · -- `initminer` delegates
    refine .bind_any fun price => .bind_any fun shares => .bind_any fun _ => .ensure fun _ => ?_
    refine .bind ((SameNames.refl s).modifyAccount creator fun _ => rfl) fun t ht => ?_
    refine .bind (createAccount_adds ht name creator shares.amount) fun u hu => .pure ?_
    exact hu.sameNames (createDelegation_sameNames u creator name shares.amount)
  · refine .ensure fun _ => .ensure fun _ => ?_
    refine .bind ((SameNames.refl s).modifyAccount creator fun _ => rfl) fun t ht => ?_
    refine .bind (createAccount_adds ht name creator 0) fun u hu => .ite (fun _ => ?_) fun _ =>
      .ok hu
    exact ((SameNames.refl u).createVesting name _).mono fun v hv => hu.sameNames hv

theorem accountCreateWithDelegation_adds (s : Database) (creator name : AccountName)
    (auths : List AccountName) (fee delegation : Int) :
    Returns (s.accountCreateWithDelegation creator name auths fee delegation)
      fun t => AddsAccount s t name := by
  unfold accountCreateWithDelegation signedBy validateName verifyAuthorityAccountsExist
  refine .ensure fun _ => .ensure fun _ => .ensure fun _ => .ensure fun _ => .ensure fun _ =>
    .bind_any fun c => .ensure fun _ => .bind_any fun _ => .bind_any fun _ => .bind_any fun _ =>
    .ensure fun _ => .bind_any fun _ => .bind_any fun _ => .bind_any fun _ => .ensure fun _ =>
    .ensure fun _ => .ensure fun _ => ?_
  refine .bind ((SameNames.refl s).modifyAccount creator fun _ => rfl) fun t ht => ?_
  refine .bind (createAccount_adds ht name creator delegation) fun u hu => ?_
  have hv := hu.sameNames (createDelegation_sameNames u creator name delegation)
  refine .ite (fun _ => ?_) fun _ => .ok hv
  exact ((SameNames.refl _).createVesting name _).mono fun w hw => hv.sameNames hw

theorem createClaimedAccount_adds (s : Database) (creator name : AccountName)
    (auths : List AccountName) :
    Returns (s.createClaimedAccount creator name auths) fun t => AddsAccount s t name := by
  unfold createClaimedAccount signedBy validateName verifyAuthorityAccountsExist
  refine .ensure fun _ => .ensure fun _ => .ensure fun _ => .bind_any fun c => .ensure fun _ =>
    .ensure fun _ => ?_
  refine .bind ((SameNames.refl s).modifyAccount creator fun _ => rfl) fun t ht => ?_
  exact createAccount_adds ht name creator 0

/-! ## The invariant -/

/-- No account has the name of a contract. -/
def Apart (s : Database) : Prop := ∀ name ∈ contractNames s, name ∉ accountNames s

theorem SameNames.apart (h : SameNames s t) (hs : Apart s) : Apart t := by
  unfold Apart
  rw [h.accounts, h.contracts]
  exact hs

theorem AddsAccount.apart {name : AccountName} (h : AddsAccount s t name) (hs : Apart s)
    (hname : name ∉ contractNames s) : Apart t := by
  unfold Apart
  rw [h.accounts, h.contracts]
  intro n hn hmem
  rcases List.mem_append.mp hmem with hmem | hmem
  · exact hs n hn hmem
  · rw [List.mem_singleton] at hmem
    exact hname (hmem ▸ hn)

/-- A contract is deployed under a name that no account has. -/
theorem launchContract_apart {op : ContractOperation} {launch : Launch}
    (h : s.launchContract env op = .ok (launch, t)) (hs : Apart s) : Apart t := by
  cases op with
  | call op =>
      simp only [launchContract, signedBy, validateName, bind_eq_ok, ensure_eq_ok, exists_const,
        pure_eq_ok, Prod.mk.injEq] at h
      obtain ⟨-, -, -, -, -, -, -, -, -, -, -, -, -, -, -, -, -, -, -, rfl⟩ := h
      exact hs
  | deploy op =>
      simp only [launchContract, signedBy, validateName, bind_eq_ok, ensure_eq_ok, exists_const,
        pure_eq_ok, Prod.mk.injEq] at h
      obtain ⟨-, -, -, -, hfree, -, -, -, -, -, -, -, -, u, hcreate, -, rfl⟩ := h
      rw [Option.isNone_iff_eq_none] at hfree
      have hname : op.name ∉ accountNames s := find?_key_eq_none.mp hfree
      unfold createContract at hcreate
      obtain ⟨-, hcreate⟩ := ensure_bind_eq_ok.mp hcreate
      rw [← pure_eq_ok.mp hcreate]
      intro n hn
      have hn : n ∈ contractNames s ++ [op.name] := by
        have hrows : contractNames { s with contracts := s.contracts.create fun _ =>
            ⟨op.name, op.creator, op.code, op.abi, 0, s.headBlockTime, s.headBlockTime⟩ } =
            contractNames s ++ [op.name] := List.map_append
        exact hrows ▸ hn
      rcases List.mem_append.mp hn with hn | hn
      · exact hs n hn
      · rw [List.mem_singleton] at hn
        rw [hn]
        exact hname

theorem applyContract_apart {op : ContractOperation} {handlers : Handlers} {fuel : Nat}
    (h : s.applyContract env handlers fuel op = .ok t) (hs : Apart s) : Apart t := by
  obtain ⟨launch, u, remain, used, hlaunch, -, hrun, -⟩ := applyContract_eq_ok.mp h
  have hran := (Undisturbed.refl u).execute (t, used) hrun
  exact hran.sameNames.apart (launchContract_apart hlaunch hs)

/-! ## Runs -/

/-- No account is created under the name of a contract. -/
def freshName (s : Database) (c : Call) : Prop :=
  ∀ name, c.newAccount = some name → (s.findContract name).isNone = true

theorem Step.apart {c : Call} (h : Step env s c t) (hc : freshName s c) (hs : Apart s) :
    Apart t := by
  have hfresh : ∀ {name}, c.newAccount = some name → name ∉ contractNames s := by
    intro name hname
    exact find?_key_eq_none.mp (Option.isNone_iff_eq_none.mp (hc name hname))
  cases h with
  | other h => exact h.apart hs
  | call handlers fuel h =>
      cases c with
      | accountCreate creator name auths fee =>
          exact (accountCreate_adds s creator name auths fee t h).apart hs (hfresh rfl)
      | accountCreateWithDelegation creator name auths fee delegation =>
          exact (accountCreateWithDelegation_adds s creator name auths fee delegation t h).apart hs
            (hfresh rfl)
      | createClaimedAccount creator name auths =>
          exact (createClaimedAccount_adds s creator name auths t h).apart hs (hfresh rfl)
      | contract op => exact applyContract_apart h hs
      | other =>
          cases h
          exact hs

theorem Reachable.apart {C : Database → Call → Prop} (hC : ∀ s c, C s c → freshName s c)
    (h : Reachable env C s) : Apart s := by
  induction h with
  | genesis supply =>
      intro name hname
      cases hname
  | step _ hc hstep ih => exact hstep.apart (hC _ _ hc) ih

/-- What rests on the names being different. -/
structure NamesApart (s : Database) : Prop where
  names : ∀ a ∈ s.accounts.rows, ∀ c ∈ s.contracts.rows, a.name ≠ c.name
  /-- The row of a contract's own data is no user's. -/
  rows : ∀ u ∈ s.contractUsers.rows, u.userName = u.contractName →
    (s.findContract u.contractName).isSome = true → s.findAccount u.userName = none
  /-- `contract_transfer` takes one branch or the other. -/
  branches : ∀ callerName contractName fromAccount : AccountName,
    (s.findAccount callerName).isSome = true → (s.findContract contractName).isSome = true →
    ¬(callerName = fromAccount ∧ contractName = fromAccount)

theorem findContract_isSome {name : AccountName} (h : (s.findContract name).isSome = true) :
    name ∈ contractNames s := by
  obtain ⟨c, hc⟩ := Option.isSome_iff_exists.mp h
  have hname : c.name = name := by simpa using List.find?_some hc
  rw [← hname]
  exact List.mem_map_of_mem (List.mem_of_find?_eq_some hc)

theorem findAccount_isSome {name : AccountName} (h : (s.findAccount name).isSome = true) :
    name ∈ accountNames s := by
  obtain ⟨a, ha⟩ := Option.isSome_iff_exists.mp h
  have hname : a.name = name := by simpa using List.find?_some ha
  rw [← hname]
  exact List.mem_map_of_mem (List.mem_of_find?_eq_some ha)

/-- **Names stay apart**, as long as no account is created under the name of
a contract. -/
theorem names_stay_apart (h : Reachable env freshName s) : NamesApart s := by
  have hapart := h.apart fun _ _ hc => hc
  refine ⟨fun a ha c hc heq => ?_, fun u _ hown hcontract => ?_, ?_⟩
  · exact hapart c.name (List.mem_map_of_mem hc) (heq ▸ List.mem_map_of_mem ha)
  · rw [hown]
    exact find?_key_eq_none.mpr (hapart _ (findContract_isSome hcontract))
  · rintro caller contract account hcaller hcontract ⟨rfl, rfl⟩
    exact hapart _ (findContract_isSome hcontract) (findAccount_isSome hcaller)

/-- Any call may be made. -/
def anyCall (_ : Database) (_ : Call) : Prop := True

theorem exists_step {C : Database → Call → Prop} (hs : Reachable env C s) {c : Call} (hc : C s c)
    (P : Database → Bool) (h : (perform env .none 3 s c).toOption.any P = true) :
    ∃ t, Reachable env C t ∧ P t = true := by
  obtain ⟨t, hperform, ht⟩ := exists_of_any h
  exact ⟨t, .step hs hc (.call .none 3 hperform), ht⟩

/-- `alice` is created while `casino` is a contract. -/
theorem names_stay_apart_casino :
    ∃ s, Reachable localEnvironment freshName s ∧ (s.findContract "casino").isSome = true ∧
      (s.findAccount "alice").isSome = true ∧ NamesApart s := by
  have hgenesis : Reachable localEnvironment freshName (genesis 1000) := .genesis 1000
  have hdeploy : freshName (genesis 1000) (.contract localContract) := by
    intro name hname
    cases hname
  obtain ⟨s, hs, hnext⟩ := exists_step hgenesis hdeploy
    (fun s => (s.findContract "alice").isNone &&
      (perform localEnvironment .none 3 s (.accountCreate "initminer" "alice" [] 0)).toOption.any
        fun t => (t.findContract "casino").isSome && (t.findAccount "alice").isSome)
    (by decide +kernel)
  rw [Bool.and_eq_true] at hnext
  have hfresh : freshName s (.accountCreate "initminer" "alice" [] 0) := by
    intro name hname
    cases hname
    exact hnext.1
  obtain ⟨t, ht, hboth⟩ := exists_step hs hfresh _ hnext.2
  rw [Bool.and_eq_true] at hboth
  exact ⟨t, ht, hboth.1, hboth.2, names_stay_apart ht⟩

/-- An account is created under the name of the contract `casino`. -/
theorem account_named_as_contract :
    ∃ s, Reachable localEnvironment anyCall s ∧ ¬NamesApart s := by
  have hgenesis : Reachable localEnvironment anyCall (genesis 1000) := .genesis 1000
  obtain ⟨s, hs, hnext⟩ := exists_step hgenesis (c := .contract localContract) trivial
    (fun s => (perform localEnvironment .none 3 s
      (.accountCreate "initminer" "casino" [] 0)).toOption.any fun t =>
        (t.findContract "casino").isSome && (t.findAccount "casino").isSome)
    (by decide +kernel)
  obtain ⟨t, ht, hboth⟩ :=
    exists_step hs (c := .accountCreate "initminer" "casino" [] 0) trivial _ hnext
  rw [Bool.and_eq_true] at hboth
  exact ⟨t, ht, fun hapart => hapart.branches "casino" "casino" "casino" hboth.2 hboth.1 ⟨rfl, rfl⟩⟩

end Gamebank.Ledger.Contracts
