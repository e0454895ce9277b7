import Gamebank.Conservation.Runs
import Gamebank.Ledger.Invariants

/-!
# What the check of the supplies finds

The sums of `validate_invariants` are those of the books but for two things:
it leaves out the contracts, and it counts the GBC behind rewarded shares as
the global properties do. So the GBD and the shares it adds up are always
right, and the GBC differs from the supply by what contracts hold less what is
counted too much.
-/

namespace Gamebank.Conservation

open Gamebank.Lib Gamebank.Protocol Gamebank.Ledger

variable {s : Database} {x y : Totals} {d : Entry}

/-! ## Sums -/

/-- `d` has been added up from `x` to `y`. -/
structure Adds (x y : Totals) (d : Entry) : Prop where
  gbc : y.totalSupply + y.pendingVestingGbc = x.totalSupply + x.pendingVestingGbc + d .gbc
  gbd : y.totalGbd = x.totalGbd + d .gbd
  vesting : y.totalVesting = x.totalVesting + (d .shares + d .rewardShares)
  pending : y.pendingVestingGbc = x.pendingVestingGbc + d .rewardGbc

theorem adding : Entering Adds where
  refl x := by constructor <;> simp
  trans h h' := by
    refine ⟨?_, ?_, ?_, ?_⟩
    · rw [h'.gbc, h.gbc, Pi.add_apply, add_assoc]
    · rw [h'.gbd, h.gbd, Pi.add_apply, add_assoc]
    · rw [h'.vesting, h.vesting, Pi.add_apply, Pi.add_apply]
      omega
    · rw [h'.pending, h.pending, Pi.add_apply, add_assoc]

theorem addAccount_adds (x : Totals) (a : Account) :
    Returns (x.addAccount a) fun y => Adds x y (accountHolds a) := by
  unfold Totals.addAccount
  refine .bind (checkedAdds_eq _ _) fun supply hsupply => ?_
  refine .bind (checkedAdds_eq _ _) fun gbd hgbd => ?_
  refine .bind (checkedAdds_eq _ _) fun vesting hvesting => ?_
  refine .bind (checkedAdd_eq _ _) fun pending hpending => ?_
  refine .bind_any fun votes => .bind_any fun totalVotes => .pure ?_
  simp only [sumOf_cons, sumOf_nil, id_eq] at hsupply hgbd hvesting
  refine ⟨?_, ?_, ?_, hpending⟩
  · show supply + pending = _ + (a.balance + a.savingsBalance + a.rewardGbcBalance +
      a.rewardVestingGbc)
    omega
  · show gbd = _ + (a.gbdBalance + a.savingsGbdBalance + a.rewardGbdBalance)
    omega
  · show vesting = _ + (a.vestingShares + a.rewardVestingBalance)
    omega

/-- An amount in shares is the one that `illegal` is for. -/
theorem addAmount_adds {illegal : Except String Totals} (x : Totals) {a : Asset}
    (h : a.symbol = .gbs → Returns illegal fun y => Adds x y (assetEntry a)) :
    Returns (Totals.addAmount illegal x a) fun y => Adds x y (assetEntry a) := by
  obtain ⟨amount, symbol⟩ := a
  unfold Totals.addAmount
  cases symbol with
  | gbc =>
      refine .bind (checkedAdd_eq _ _) fun total htotal => .pure ?_
      constructor <;> simp [assetEntry, bookOf, entry_apply, htotal]
      omega
  | gbd =>
      refine .bind (checkedAdd_eq _ _) fun total htotal => .pure ?_
      constructor <;> simp [assetEntry, bookOf, entry_apply, htotal]
  | gbs => exact h rfl

theorem addConvertRequest_adds (x : Totals) (r : ConvertRequest) :
    Returns (x.addConvertRequest r) fun y => Adds x y (requestHolds r) :=
  addAmount_adds x fun _ => .error

theorem addLimitOrder_adds (x : Totals) (o : LimitOrder) (h : o.sellPrice.base.symbol ≠ .gbs) :
    Returns (x.addLimitOrder o) fun y => Adds x y (orderHolds o) :=
  addAmount_adds x fun hsymbol => absurd hsymbol h

theorem addSavingsWithdraw_adds (x : Totals) (r : SavingsWithdraw) :
    Returns (x.addSavingsWithdraw r) fun y => Adds x y (withdrawHolds r) :=
  addAmount_adds x fun _ => .error

theorem addEscrow_adds (x : Totals) (e : Escrow) :
    Returns (x.addEscrow e) fun y => Adds x y (escrowHolds e) := by
  unfold Totals.addEscrow
  refine .bind (checkedAdd_eq _ _) fun supply hsupply => ?_
  refine .bind (checkedAdd_eq _ _) fun gbd hgbd => ?_
  have hbalances : Adds x { x with totalSupply := supply, totalGbd := gbd }
      (entry .gbc e.gbcBalance + entry .gbd e.gbdBalance) := by
    constructor <;> simp [entry_apply, hsupply, hgbd]
    omega
  exact (addAmount_adds _ fun _ => .error).mono fun y hy => adding.trans hbalances hy

theorem addRewardFund_adds (x : Totals) (f : RewardFund) :
    Returns (x.addRewardFund f) fun y => Adds x y (fundHolds f) := by
  unfold Totals.addRewardFund
  refine .bind (checkedAdd_eq _ _) fun supply hsupply => .pure ?_
  constructor <;> simp [fundHolds, entry_apply, hsupply]
  omega

/-! ## The check -/

/-- What contracts hold. -/
def contractGbc (s : Database) : Int := s.contracts.sum Contract.balance

theorem contracts_sum (s : Database) :
    s.contracts.sum contractHolds = entry .gbc (contractGbc s) := by
  unfold contractGbc Table.sum
  induction s.contracts.rows with
  | nil => exact (entry_zero .gbc).symm
  | cons c rest ih => rw [List.map_cons, List.map_cons, List.sum_cons, List.sum_cons, ih, entry_add,
      contractHolds]

/-- What is added up is what the books have, without the contracts. -/
theorem addUp_adds (horders : ∀ o ∈ s.limitOrders.rows, o.sellPrice.base.symbol ≠ .gbs) :
    Returns s.addUp fun x => Adds .zero { x with
        totalSupply := x.totalSupply - (s.props.totalVestingFundGbc +
          s.props.totalRewardFundGbc + s.props.pendingRewardedVestingGbc) }
      (excess s + supplies s.props - entry .gbc (contractGbc s)) := by
  unfold Database.addUp
  refine .bind (adding.foldlM (fun x a _ => addAccount_adds x a) .zero) fun x1 h1 => ?_
  refine .bind (adding.foldlM (fun x r _ => addConvertRequest_adds x r) x1) fun x2 h2 => ?_
  refine .bind (adding.foldlM (fun x o ho => addLimitOrder_adds x o (horders o ho)) x2)
    fun x3 h3 => ?_
  refine .bind (adding.foldlM (fun x e _ => addEscrow_adds x e) x3) fun x4 h4 => ?_
  refine .bind (adding.foldlM (fun x r _ => addSavingsWithdraw_adds x r) x4) fun x5 h5 => ?_
  refine .bind (adding.foldlM (fun x f _ => addRewardFund_adds x f) x5) fun x6 h6 => ?_
  refine .bind (checkedAdds_eq _ _) fun funds hfunds => .bind (checkedAdd_eq _ _)
    fun total htotal => .pure ?_
  have hsorted : ((s.accounts.rows.insertionSort fun a b => a.name ≤ b.name).map accountHolds).sum =
      s.accounts.sum accountHolds :=
    ((List.perm_insertionSort _ _).map accountHolds).sum_eq
  rw [hsorted] at h1
  have hsum := adding.trans (adding.trans (adding.trans (adding.trans (adding.trans h1 h2) h3) h4)
    h5) h6
  have hall : excess s + supplies s.props - entry .gbc (contractGbc s) =
      s.accounts.sum accountHolds + s.convertRequests.sum requestHolds +
        s.limitOrders.sum orderHolds + s.escrows.sum escrowHolds +
        s.savingsWithdraws.sum withdrawHolds + s.rewardFunds.sum fundHolds := by
    rw [excess, contracts_sum]
    abel
  have hleft : total - (s.props.totalVestingFundGbc + s.props.totalRewardFundGbc +
      s.props.pendingRewardedVestingGbc) = x6.totalSupply := by
    simp only [sumOf_cons, sumOf_nil, id_eq] at hfunds
    omega
  rw [hall]
  dsimp only
  rw [hleft]
  exact hsum

/-- The GBD and the shares are always right. The GBC falls short by what contracts
hold, less what the global properties count too much behind shares. -/
theorem addUp_totals (hs : Reachable s) : Returns s.addUp fun x =>
    x.totalGbd = s.props.currentGbdSupply ∧
      x.totalVesting = s.props.totalVestingShares + s.props.pendingRewardedVestingShares ∧
      x.totalSupply + contractGbc s = s.props.currentSupply +
        (s.props.pendingRewardedVestingGbc - x.pendingVestingGbc) := by
  have hbooks : ∀ b, b ≠ .rewardGbc → excess s b = 0 := fun b hb => excess_of_reachable hs hb
  refine (addUp_adds hs.closed.sound.orders).mono fun x hx => ?_
  have hgbc := hx.gbc
  have hgbd := hx.gbd
  have hvesting := hx.vesting
  simp only [Pi.add_apply, Pi.sub_apply, entry_apply, hbooks .gbc (by decide),
    hbooks .gbd (by decide), hbooks .shares (by decide), hbooks .rewardShares (by decide), supplies,
    Totals.zero, reduceCtorEq, if_true, if_false] at hgbc hgbd hvesting
  omega

theorem validateInvariants_contracts (hs : Reachable s) :
    Returns s.validateInvariants fun _ => contractGbc s = 0 := by
  unfold Database.validateInvariants
  refine .ensure fun _ => .bind (addUp_totals hs) fun x ⟨_, _, hx⟩ => .ensure fun hsupply =>
    .ensure fun _ => .bind_any fun _ => .ensure fun _ => .ensure fun _ => .ensure fun hpending => ?_
  have hsupply := of_decide_eq_true hsupply
  have hpending := of_decide_eq_true hpending
  intro _ _
  omega

/-- **What the check finds.** The sums of GBD and of shares are those of the
global properties in every state that is reached; the sum of GBC differs from
the supply by what contracts hold less what is counted too much behind rewarded
shares. So the check fails when contracts hold anything. -/
theorem check_finds (hs : Reachable s) :
    (Returns s.addUp fun x => x.totalGbd = s.props.currentGbdSupply ∧
      x.totalVesting = s.props.totalVestingShares + s.props.pendingRewardedVestingShares ∧
      x.totalSupply + contractGbc s = s.props.currentSupply +
        (s.props.pendingRewardedVestingGbc - x.pendingVestingGbc)) ∧
      (contractGbc s ≠ 0 → s.validateInvariants ≠ .ok ()) :=
  ⟨addUp_totals hs, fun hne h => hne (validateInvariants_contracts hs () h)⟩

/-- A contract that has been paid: the sums are added up, and the check fails. -/
theorem check_finds_paid : ∃ s, Reachable s ∧ contractGbc s = 10 ∧
    (∃ x, s.addUp = .ok x ∧ x.totalSupply + 10 = s.props.currentSupply) ∧
    s.validateInvariants ≠ .ok () := by
  obtain ⟨s, hrun, hs⟩ := exists_of_any (P := fun s : Database => contractGbc s = 10 &&
      s.addUp.toOption.any fun x => x.pendingVestingGbc = s.props.pendingRewardedVestingGbc)
    (show (perform (Database.genesis 1000) deployPaying).toOption.any _ = true by decide +kernel)
  rw [Bool.and_eq_true, decide_eq_true_eq] at hs
  obtain ⟨hpaid, hsums⟩ := hs
  obtain ⟨x, hx, hpending⟩ := exists_of_any hsums
  have hreached : Reachable s :=
    .call (c := deployPaying) (.genesis 1000) trivial hrun
  have hfinds := check_finds hreached
  refine ⟨s, hreached, hpaid, ⟨x, hx, ?_⟩, hfinds.2 (by omega)⟩
  have hsupply := (hfinds.1 x hx).2.2
  have hpending := of_decide_eq_true hpending
  omega

end Gamebank.Conservation
