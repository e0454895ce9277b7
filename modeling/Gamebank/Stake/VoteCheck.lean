import Gamebank.Ledger.Invariants
import Gamebank.Stake.Completions

/-!
# The votes `validate_invariants` counts

An account without a proxy is counted with the votes it casts, an account with
a proxy with the votes from four links below, which its proxy does not get. A
chain of proxies is cut off there, so all shares are counted, and once.
-/

namespace Gamebank.Ledger.Database

open Gamebank.Lib Gamebank.Protocol

variable {s : Database} {a : Account}

/-! ## Accounts -/

theorem witnessVoteWeight_eq (a : Account) :
    a.witnessVoteWeight = a.vestingShares + sumOf id a.proxiedVsfVotes.toList := by
  unfold Account.witnessVoteWeight
  generalize a.proxiedVsfVotes = votes
  obtain ⟨⟨l⟩, hl⟩ := votes
  obtain ⟨v, w, x, y, rfl⟩ := List.length_eq_four.mp hl
  show _ + (v + w + x + y) = _ + (v + (w + (x + (y + 0))))
  omega

theorem checkedWeight_eq (a : Account) :
    Returns (checkedWeight a) fun weight => weight = a.witnessVoteWeight :=
  (checkedAdds_eq _ _).mono fun _ hweight => hweight.trans (witnessVoteWeight_eq a).symm

theorem vsfVotes_eq (a : Account) : Returns (Totals.vsfVotes a) fun votes =>
    votes = if a.proxy = proxyToSelfAccount then a.witnessVoteWeight
      else a.proxiedVsfVotes.get 3 := by
  unfold Totals.vsfVotes
  split
  · exact checkedWeight_eq a
  · exact .ok rfl

/-- What an account is counted with, by what is below it. -/
def endLevels (s : Database) (name : AccountName) : Int :=
  if s.page.up name = none then ∑ k ∈ Finset.range 5, s.page.level k name else s.page.level 4 name

theorem Tallied.weight_eq (h : Tallied s) (ha : a ∈ s.accounts.rows)
    (hself : a.proxy = proxyToSelfAccount) : a.witnessVoteWeight = s.endLevels a.name := by
  rw [endLevels, Books.up_eq h ha, if_pos hself, if_pos rfl, Books.weight_eq h ha fun _ _ => rfl]
  simp only [Finset.sum_range_succ, Finset.sum_range_zero, zero_add]
  omega

theorem Tallied.vsfVotes_eq (h : Tallied s) (ha : a ∈ s.accounts.rows) :
    Returns (Totals.vsfVotes a) fun votes => votes = s.endLevels a.name := by
  refine (Database.vsfVotes_eq a).mono fun votes hvotes => ?_
  rw [hvotes]
  split
  next hself => exact h.weight_eq ha hself
  next hproxy =>
    rw [endLevels, Books.up_eq h ha, if_neg hproxy, if_neg (by simp)]
    exact (Books.proxied h a ha 3).trans (add_zero _)

/-- **All shares are counted once.** -/
theorem Tallied.sum_endLevels (h : Tallied s) :
    sumOf (fun a : Account => s.endLevels a.name) s.accounts.rows =
      s.accounts.total Account.vestingShares := by
  have hkeys : ∀ x ∈ s.stakes, x.1 ∈ s.accounts.rows.map Account.name := by
    intro x hx
    obtain ⟨a, ha, rfl⟩ := List.mem_map.mp hx
    exact List.mem_map_of_mem ha
  have hends := sumOf_level_ends (w := Prod.snd) (Books.names h) (Books.proxyExists h) hkeys 4
  rw [sumOf_map] at hends
  refine Eq.trans hends ?_
  rw [stakes, sumOf_map]
  rfl

/-! ## Sums -/

theorem addAccount_votes (h : Tallied s) (ha : a ∈ s.accounts.rows) (x : Totals) :
    Returns (x.addAccount a) fun y => y.totalVsfVotes = x.totalVsfVotes + s.endLevels a.name := by
  unfold Totals.addAccount
  refine .bind_any fun _ => .bind_any fun _ => .bind_any fun _ => .bind_any fun _ => ?_
  refine .bind (h.vsfVotes_eq ha) fun votes hvotes => .bind (checkedAdd_eq _ _) fun total htotal =>
    .pure ?_
  rw [← hvotes]
  exact htotal

theorem addAmount_votes {illegal : Except String Totals} (x : Totals) (a : Asset)
    (h : Returns illegal fun y => y.totalVsfVotes = x.totalVsfVotes) :
    Returns (Totals.addAmount illegal x a) fun y => y.totalVsfVotes = x.totalVsfVotes := by
  unfold Totals.addAmount
  cases a.symbol with
  | gbc => exact .bind_any fun _ => .pure rfl
  | gbd => exact .bind_any fun _ => .pure rfl
  | gbs => exact h

/-- A loop that has nothing to do with votes. -/
theorem foldlM_votes {α : Type} {f : Totals → α → Except String Totals}
    (hf : ∀ x b, Returns (f x b) fun y => y.totalVsfVotes = x.totalVsfVotes) (l : List α)
    (x : Totals) : Returns (l.foldlM f x) fun y => y.totalVsfVotes = x.totalVsfVotes :=
  Returns.foldlM rfl fun y hy b _ => (hf y b).mono fun _ hz => hz.trans hy

theorem addEscrow_votes (x : Totals) (e : Escrow) :
    Returns (x.addEscrow e) fun y => y.totalVsfVotes = x.totalVsfVotes := by
  unfold Totals.addEscrow
  exact .bind_any fun _ => .bind_any fun _ => addAmount_votes _ _ .error

theorem addRewardFund_votes (x : Totals) (f : RewardFund) :
    Returns (x.addRewardFund f) fun y => y.totalVsfVotes = x.totalVsfVotes := by
  unfold Totals.addRewardFund
  exact .bind_any fun _ => .pure rfl

theorem addAccounts_votes (h : Tallied s) {l : List Account} (hl : l ⊆ s.accounts.rows)
    (x : Totals) : Returns (l.foldlM Totals.addAccount x) fun y =>
      y.totalVsfVotes = x.totalVsfVotes + sumOf (fun a => s.endLevels a.name) l := by
  induction l generalizing x with
  | nil => exact .pure (add_zero _).symm
  | cons a rest ih =>
      rw [List.foldlM_cons]
      refine .bind (addAccount_votes h (hl List.mem_cons_self) x) fun y hy => ?_
      refine (ih (fun b hb => hl (List.mem_cons_of_mem a hb)) y).mono fun z hz => ?_
      rw [hz, hy, sumOf_cons, add_assoc]

theorem addUp_votes (h : Tallied s) : Returns s.addUp fun x =>
    x.totalVsfVotes = s.accounts.total Account.vestingShares := by
  unfold addUp
  have hperm : (s.accounts.rows.insertionSort fun a b => a.name ≤ b.name).Perm s.accounts.rows :=
    List.perm_insertionSort _ _
  refine .bind (addAccounts_votes h hperm.subset _) fun x1 h1 => ?_
  refine .bind (foldlM_votes (fun x r => addAmount_votes x _ .error) _ x1) fun x2 h2 => ?_
  refine .bind (foldlM_votes (fun x o => addAmount_votes x _ (.ok rfl)) _ x2) fun x3 h3 => ?_
  refine .bind (foldlM_votes addEscrow_votes _ x3) fun x4 h4 => ?_
  refine .bind (foldlM_votes (fun x r => addAmount_votes x _ .error) _ x4) fun x5 h5 => ?_
  refine .bind (foldlM_votes addRewardFund_votes _ x5) fun x6 h6 => ?_
  refine .bind_any fun funds => .bind_any fun total => .pure ?_
  show x6.totalVsfVotes = _
  rw [h6, h5, h4, h3, h2, h1, sumOf_perm hperm, h.sum_endLevels]
  exact zero_add _

/-- **The checks of votes succeed** in every state that is reached: the votes of
all accounts are the vesting shares there are, and no witness has more votes,
as long as no account has fewer shares than none. -/
theorem vote_checks (hs : Reachable anyCall s) :
    (Returns s.addUp fun x => x.totalVsfVotes = s.props.totalVestingShares) ∧
      ((s.accounts.All fun a => 0 ≤ a.vestingShares) →
        ∀ w ∈ s.witnesses.rows, w.votes ≤ s.props.totalVestingShares) := by
  have htotal : s.accounts.total Account.vestingShares = s.props.totalVestingShares := by
    have hshares := hs.accounted.1.shares
    omega
  refine ⟨htotal ▸ addUp_votes hs.tallied, fun hshares w hw => ?_⟩
  rw [hs.tallied.votes_eq hw, ← htotal]
  exact supportOf_le_total hshares w.owner

/-- The votes of `alice` are handed on over five links. -/
def cutOffVotes : List Call :=
  ["alice", "bob", "carol", "dave", "eve", "frank"].map (.accountCreate "initminer" · [] 0) ++
    [.transferToVesting "initminer" "alice" (.gbc 1), .accountWitnessProxy "alice" "bob",
      .accountWitnessProxy "bob" "carol", .accountWitnessProxy "carol" "dave",
      .accountWitnessProxy "dave" "eve", .accountWitnessProxy "eve" "frank"]

/-- They end at `eve`, and are counted there. -/
theorem vote_checks_cut_off :
    ∃ t, run anyCall (genesis 3) cutOffVotes = .ok t ∧
      ((t.accounts.rows.filter fun a => a.proxiedVsfVotes.get 3 ≠ 0).map Account.name) = ["eve"] ∧
      (∃ x, t.addUp = .ok x ∧ x.totalVsfVotes = t.props.totalVestingShares) ∧
      ∀ w ∈ t.witnesses.rows, w.votes ≤ t.props.totalVestingShares := by
  obtain ⟨t, hrun, ht⟩ := exists_run anyCall (genesis 3) cutOffVotes
    (fun t => (t.accounts.rows.all fun a => 0 ≤ a.vestingShares) && t.addUp.toOption.isSome &&
      ((t.accounts.rows.filter fun a => a.proxiedVsfVotes.get 3 ≠ 0).map Account.name) = ["eve"])
    (by decide +kernel)
  simp only [Bool.and_eq_true, List.all_eq_true, decide_eq_true_eq, Option.isSome_iff_exists] at ht
  obtain ⟨⟨hshares, x, hx⟩, heve⟩ := ht
  obtain ⟨hvotes, hwitnesses⟩ := vote_checks (.run (.genesis 3) hrun)
  have hx := toOption_eq_some.mp hx
  exact ⟨t, hrun, heve, ⟨x, hx, hvotes x hx⟩, hwitnesses hshares⟩

end Gamebank.Ledger.Database
