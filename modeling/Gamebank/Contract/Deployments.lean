import Gamebank.Contract.Names

/-!
# Two deployments in a block

`contract_object_index` keeps the contracts under the time of their creation
as well, and that key is unique. The time is that of the head block, which a
contract cannot change while it runs, so **a second contract is never
deployed in a block**, whatever the two are called.
-/

namespace Gamebank.Ledger.Contracts

open Gamebank.Lib Gamebank.Protocol Database

variable {env : Environment} {handlers handlers' : Handlers} {s t u : Database}
  {op a b : ContractDeploy}

/-- A contract has been created since the last block. -/
def DeployedNow (s : Database) : Prop :=
  s.headBlockTime ∈ s.contracts.rows.map Contract.created

theorem Undisturbed.deployedNow (h : Undisturbed s t) (hs : DeployedNow s) : DeployedNow t := by
  have hcreated : t.contracts.rows.map Contract.created = s.contracts.rows.map Contract.created :=
    map_eq_of_map_eq h.contracts fun _ => rfl
  unfold DeployedNow
  rw [hcreated, h.headBlockTime]
  exact hs

/-- The contract is created under the time of the head block, which must be free. -/
theorem createContract_spec (s : Database) (op : ContractDeploy) :
    Returns (s.createContract op) fun t => ¬DeployedNow s ∧ DeployedNow t := by
  unfold createContract
  refine .ensure fun hfree => .pure ⟨?_, ?_⟩
  · intro hnow
    obtain ⟨c, hc, hcreated⟩ := List.mem_map.mp hnow
    have hne := List.all_eq_true.mp hfree c hc
    simp [hcreated] at hne
  · show s.headBlockTime ∈ (s.contracts.rows ++ [_]).map Contract.created
    rw [List.map_append, List.mem_append]
    exact Or.inr List.mem_cons_self

/-- **What a deployment says of the block it is in.** -/
theorem yields_deploy (h : Yields env handlers s (.deploy op) t) :
    ¬DeployedNow s ∧ DeployedNow t := by
  obtain ⟨fuel, h⟩ := h
  obtain ⟨launch, v, remain, used, hlaunch, -, hrun, -⟩ := applyContract_eq_ok.mp h
  simp only [launchContract, signedBy, validateName, bind_eq_ok, ensure_eq_ok, exists_const,
    pure_eq_ok, Prod.mk.injEq] at hlaunch
  obtain ⟨-, -, -, -, -, -, -, -, -, -, -, -, -, w, hcreate, -, rfl⟩ := hlaunch
  obtain ⟨hbefore, hafter⟩ := createContract_spec s op w hcreate
  exact ⟨hbefore, ((Undisturbed.refl w).execute (t, used) hrun).deployedNow hafter⟩

/-- Both operations go through, `b` after `a` in one block. What the plugin
keeps may change in between. -/
def BothDeploy (env : Environment) (handlers handlers' : Handlers) (s : Database)
    (a b : ContractDeploy) : Prop :=
  ∃ t u, Yields env handlers s (.deploy a) t ∧ Yields env handlers' t (.deploy b) u

theorem not_bothDeploy : ¬BothDeploy env handlers handlers' s a b := by
  rintro ⟨t, u, ha, hb⟩
  exact (yields_deploy hb).1 (yields_deploy ha).2

/-- **In no order do two deployments of a block both go through.** -/
theorem deployments_clash (env : Environment) (handlers handlers' : Handlers) (s : Database)
    (a b : ContractDeploy) :
    ¬BothDeploy env handlers handlers' s a b ∧ ¬BothDeploy env handlers handlers' s b a :=
  ⟨not_bothDeploy, not_bothDeploy⟩

/-- Two contracts that each can be deployed. -/
theorem casino_or_lottery :
    ∃ s, Reachable localEnvironment anyCall s ∧
      (∃ t, Yields localEnvironment .none s
        (.deploy ⟨"initminer", "casino", "local a = 1", "[]"⟩) t) ∧
      (∃ t, Yields localEnvironment .none s
        (.deploy ⟨"initminer", "lottery", "local a = 1", "[]"⟩) t) ∧
      ¬BothDeploy localEnvironment .none .none s ⟨"initminer", "casino", "local a = 1", "[]"⟩
        ⟨"initminer", "lottery", "local a = 1", "[]"⟩ ∧
      ¬BothDeploy localEnvironment .none .none s ⟨"initminer", "lottery", "local a = 1", "[]"⟩
        ⟨"initminer", "casino", "local a = 1", "[]"⟩ := by
  have hyields : ∀ op : ContractOperation,
      ((genesis 1000).applyContract localEnvironment .none 3 op).toOption.any
        (fun _ => true) = true →
        ∃ t, Yields localEnvironment .none (genesis 1000) op t := by
    intro op hop
    obtain ⟨t, ht, -⟩ := exists_of_any hop
    exact ⟨t, 3, ht⟩
  exact ⟨genesis 1000, .genesis 1000, hyields _ (by decide +kernel), hyields _ (by decide +kernel),
    not_bothDeploy, not_bothDeploy⟩

end Gamebank.Ledger.Contracts
