import Gamebank.Chain.Finality
import Gamebank.Lib.Rank
import Mathlib.Order.Bounds.Defs

/-!
# The quorum behind an irreversible block

Once the witnesses vote, `update_last_irreversible_block` takes the element at
a quarter of the way through the confirmations in their order. Three quarters
of the scheduled witnesses, rounded up, have confirmed it, and they have not
confirmed anything higher.
-/

namespace Gamebank.Chain

open Gamebank.Lib

universe u v w

variable {Name : Type u} {Tx : Type v} {Rest : Type w}

/-- Three quarters of `n` witnesses, rounded up. -/
def quorum (n : Nat) : Nat := (3 * n + 3) / 4

/-- The witnesses before the threshold's offset are those the quorum can spare. -/
theorem sub_offset_eq_quorum (n : Nat) :
    n - (hundredPercent - irreversibleThreshold) * n / hundredPercent = quorum n := by
  unfold hundredPercent irreversibleThreshold quorum
  omega

namespace Objects

/-- A quorum of the scheduled witnesses has confirmed the block `num`. -/
def QuorumConfirms (ev : Evaluators Name Tx Rest) (o : Objects Name Rest) (num : Nat) : Prop :=
  quorum (ev.scheduledWitnesses o.rest).length ≤
    (ev.scheduledWitnesses o.rest).countP fun w => num ≤ o.lastConfirmedBlockNum w

theorem le_confirmedByQuorum_iff {ev : Evaluators Name Tx Rest} {o : Objects Name Rest} {v : Nat}
    (h : o.confirmedByQuorum ev = some v) (num : Nat) : num ≤ v ↔ o.QuorumConfirms ev num := by
  unfold confirmedByQuorum at h
  rw [le_iff_countP_of_rank h num, List.length_map, sub_offset_eq_quorum, List.countP_map]
  rfl

/-- A vote that moves the last irreversible block moves it to the highest block
that a quorum has confirmed. -/
theorem newLastIrreversible_isGreatest {ev : Evaluators Name Tx Rest} {o : Objects Name Rest}
    {lib : Nat}
    (hvotes : startMinerVotingBlock ≤ o.headBlockNumber) (h : o.newLastIrreversible ev = .ok lib)
    (hmoved : lib ≠ o.lastIrreversibleBlockNum) :
    IsGreatest {num | o.QuorumConfirms ev num} lib := by
  unfold newLastIrreversible at h
  rw [if_neg (not_lt.mpr hvotes)] at h
  split at h
  · cases h
  · cases hv : o.confirmedByQuorum ev with
    | none =>
        rw [hv] at h
        cases h
    | some v =>
        rw [hv] at h
        obtain rfl := Except.ok.inj h
        have hmax : max v o.lastIrreversibleBlockNum = v := by omega
        rw [hmax]
        refine ⟨?_, fun num hnum => ?_⟩
        · exact (le_confirmedByQuorum_iff hv v).mp le_rfl
        · exact (le_confirmedByQuorum_iff hv num).mpr hnum

end Objects

namespace Node

theorem updateLastIrreversibleBlock_objects (ev : Evaluators Name Tx Rest) (n : Node Name Tx Rest) :
    (n.updateLastIrreversibleBlock ev).state.objects = n.objects ∨
      ∃ lib, n.objects.newLastIrreversible ev = .ok lib ∧
        (n.updateLastIrreversibleBlock ev).state.objects =
          { n.objects with lastIrreversibleBlockNum := lib } := by
  unfold updateLastIrreversibleBlock
  cases hlib : n.objects.newLastIrreversible ev with
  | error e => exact Or.inl rfl
  | ok lib => exact Or.inr ⟨lib, rfl, (settleIrreversible_settled _).objects⟩

/-- **Irreversible by a quorum**: where the witnesses vote,
`update_last_irreversible_block` moves the last irreversible block only to the
highest block that a quorum of the scheduled witnesses has confirmed. -/
theorem irreversible_by_quorum (ev : Evaluators Name Tx Rest) (n : Node Name Tx Rest)
    (hvotes : startMinerVotingBlock ≤ n.headBlockNum)
    (hmoved : (n.updateLastIrreversibleBlock ev).state.objects.lastIrreversibleBlockNum ≠
      n.objects.lastIrreversibleBlockNum) :
    IsGreatest {num | n.objects.QuorumConfirms ev num}
      (n.updateLastIrreversibleBlock ev).state.objects.lastIrreversibleBlockNum := by
  rcases updateLastIrreversibleBlock_objects ev n with hsame | ⟨lib, hlib, hnew⟩
  · rw [hsame] at hmoved
    exact absurd rfl hmoved
  · rw [hnew] at hmoved ⊢
    exact n.objects.newLastIrreversible_isGreatest hvotes hlib hmoved

end Node

/-! ### Four scheduled witnesses -/

/-- Four witnesses take turns; three of them must confirm a block. -/
def fourWitnesses : Evaluators Nat Nat (List Nat) :=
  { soloWitness with
    hasWitness := fun _ w => w < 4
    scheduledWitnesses := fun _ => [2, 0, 3, 1] }

/-- A node at block 864000; witness `w` has confirmed all but the last `2 * w`
blocks. -/
def fourNode : Node Nat Nat (List Nat) :=
  { soloNode with
    db := soloNode.db.set { soloNode.objects with
      lastIrreversibleBlockNum := 863990
      lastConfirmedBlockNum := fun w => 864000 - 2 * w } }

theorem irreversible_by_quorum_four :
    (fourNode.updateLastIrreversibleBlock fourWitnesses).state.objects.lastIrreversibleBlockNum =
        863996 ∧
      IsGreatest {num | fourNode.objects.QuorumConfirms fourWitnesses num} 863996 := by
  have hnew : (fourNode.updateLastIrreversibleBlock
      fourWitnesses).state.objects.lastIrreversibleBlockNum = 863996 := by decide +kernel
  refine ⟨hnew, ?_⟩
  rw [← hnew]
  exact Node.irreversible_by_quorum fourWitnesses fourNode (by decide) (by rw [hnew]; decide)

end Gamebank.Chain
