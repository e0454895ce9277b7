import Gamebank.Chain.Revision

/-!
# The last irreversible block and the head

A witness confirms a block by signing it, and then the block is applied
and its number is at most the head's. `confirm_block` instead records the
number **after** the head, of a header that no block of the chain has yet.
Every accepted confirmation therefore puts a witness, and with a quorum
the last irreversible block, above the head; nothing else does.
-/

namespace Gamebank.Chain

open Gamebank.Lib

universe u v w

variable {Name : Type u} {Tx : Type v} {Rest : Type w} [DecidableEq Name]

/-! ## Properties of the objects that blocks keep -/

/-- The updates a block makes to the objects keep `P`. -/
structure ClosedUnderBlocks (ev : Evaluators Name Tx Rest) (P : Objects Name Rest → Prop) :
    Prop where
  rest : ∀ o r, P o → P (o.setRest r)
  advance : ∀ o (b : SignedBlock Name Tx), P o → b.previous = o.headBlockId → P (o.advanceHead b)
  sign : ∀ o (b : SignedBlock Name Tx), P o → b.previous = o.headBlockId →
    P ((o.advanceHead b).updateSigningWitness b)
  irreversible : ∀ o lib, P o → o.newLastIrreversible ev = .ok lib →
    P { o with lastIrreversibleBlockNum := lib }

namespace Node

omit [DecidableEq Name] in
theorem resetPending_allStates {P : Objects Name Rest → Prop} {n : Node Name Tx Rest}
    (h : n.db.AllStates P) : n.resetPending.db.AllStates P := by
  unfold Node.resetPending
  split
  · exact h
  · exact h.undo

/-- A property that blocks keep holds of the current objects and of every
snapshot after a block, applied or failed. -/
theorem applyInSession_allStates {ev : Evaluators Name Tx Rest} {P : Objects Name Rest → Prop}
    (hP : ClosedUnderBlocks ev P) (b : SignedBlock Name Tx) {n : Node Name Tx Rest}
    (h : n.db.AllStates P) :
    (n.applyInSession ev b).Post (fun m => m.db.AllStates P) (fun m => m.db.AllStates P) := by
  refine Result.Post.onError (E := fun m => m.db.AllStates P) ?_ fun s hs => hs.undo
  have hstart := h.startUndoSession
  refine applyBlock_post ?_ ?_ ?_ ?_
  · exact fun r => hstart.set (hP.rest _ r hstart.1)
  · exact fun r hprev => hstart.set (hP.advance _ b (hP.rest _ r hstart.1) hprev)
  · exact fun r hprev => hstart.set (hP.sign _ b (hP.rest _ r hstart.1) hprev)
  · intro r lib s hprev _ hlib hs
    have hall : s.db.AllStates P := by
      rw [hs.db]
      exact (hstart.set (hP.irreversible _ lib
        (hP.sign _ b (hP.rest _ r hstart.1) hprev) hlib)).commit _
    exact ⟨hall, fun r' => ⟨hall.set (hP.rest _ r' hall.1), hall.set (hP.rest _ r' hall.1)⟩⟩

/-- Such a property goes through every entry point but `confirm_block`. -/
theorem allStates_keeps {ev : Evaluators Name Tx Rest} {P : Objects Name Rest → Prop}
    (hP : ClosedUnderBlocks ev P) (kept : List BlockId) :
    Keeps ev (fun n => n.Steady kept ∧ n.db.AllStates P)
      (fun n => n.Idle kept ∧ n.db.AllStates P) where
  base :=
    { pending :=
        { congr := fun n n' h hs _ => ⟨h.1.congr hs, by rw [hs.db]; exact h.2⟩
          openPending := fun n h hp =>
            ⟨(steady_keepsPending kept).openPending n h.1 hp, h.2.startUndoSession⟩
          pendingState := fun n h hp => (steady_keepsPending kept).pendingState n h.1 hp
          setRest := fun n r h hp =>
            ⟨(steady_keepsPending kept).setRest n r h.1 hp, h.2.set (hP.rest _ r h.2.1)⟩ }
      noPending := fun _ h => h.1.noPending
      weaken := fun _ h => ⟨h.1.steady, h.2⟩
      reset := fun n h => ⟨h.1.resetPending, resetPending_allStates h.2⟩ }
  branch _ :=
    { noPending := fun _ h => h.1.noPending
      congr := fun n n' h hs => ⟨h.1.congr hs, by rw [hs.db]; exact h.2⟩
      undo := fun n h _ => ⟨h.1.undo, h.2.undo⟩
      applyInSession := fun b n h =>
        (applyInSession_idle ev b h.1).and (applyInSession_allStates hP b h.2) }

end Node

/-! ## Nothing above the head -/

namespace Objects

omit [DecidableEq Name] in
/-- The value the quorum agrees on is a scheduled witness's confirmation. -/
theorem confirmedByQuorum_mem {ev : Evaluators Name Tx Rest} {o : Objects Name Rest} {v : Nat}
    (h : o.confirmedByQuorum ev = some v) :
    ∃ w ∈ ev.scheduledWitnesses o.rest, o.lastConfirmedBlockNum w = v := by
  have hmem := List.mem_of_getElem? h
  rw [(List.perm_insertionSort _ _).mem_iff] at hmem
  exact List.mem_map.mp hmem

/-- `last_irreversible_block_num` and all confirmations are at most the head's number. -/
structure Bounded (o : Objects Name Rest) : Prop where
  idNum : o.headBlockId.num = o.headBlockNumber
  irreversible : o.lastIrreversibleBlockNum ≤ o.headBlockNumber
  confirmed : ∀ w, o.lastConfirmedBlockNum w ≤ o.headBlockNumber

omit [DecidableEq Name] in
theorem Bounded.advanceHead {o : Objects Name Rest} (h : o.Bounded) {b : SignedBlock Name Tx}
    (hprev : b.previous = o.headBlockId) :
    (o.advanceHead b).Bounded ∧ (o.advanceHead b).headBlockNumber = b.blockNum := by
  have hnum : b.blockNum = o.headBlockNumber + 1 := by
    rw [SignedBlock.blockNum, hprev, h.idNum]
  refine ⟨⟨rfl, ?_, fun w => ?_⟩, rfl⟩
  · show o.lastIrreversibleBlockNum ≤ b.blockNum
    have := h.irreversible
    omega
  · show o.lastConfirmedBlockNum w ≤ b.blockNum
    have := h.confirmed w
    omega

theorem Bounded.updateSigningWitness {o : Objects Name Rest} (h : o.Bounded)
    {b : SignedBlock Name Tx} (hnum : o.headBlockNumber = b.blockNum) :
    (o.updateSigningWitness b).Bounded := by
  refine ⟨by simpa using h.idNum, by simpa using h.irreversible, fun w => ?_⟩
  rw [updateSigningWitness_headBlockNumber]
  unfold Objects.updateSigningWitness
  split
  · exact h.confirmed w
  · simp only [recordConfirmation]
    split
    · exact Nat.le_of_eq hnum.symm
    · exact h.confirmed w

omit [DecidableEq Name] in
theorem newLastIrreversible_le {ev : Evaluators Name Tx Rest} {o : Objects Name Rest} {lib : Nat}
    (h : o.Bounded) (hlib : o.newLastIrreversible ev = .ok lib) : lib ≤ o.headBlockNumber := by
  unfold newLastIrreversible at hlib
  split at hlib
  · simp only [Except.ok.injEq] at hlib
    subst hlib
    have := h.irreversible
    split <;> omega
  · split at hlib
    · simp at hlib
    · split at hlib
      · simp at hlib
      · rename_i v hv
        obtain ⟨w, -, rfl⟩ := confirmedByQuorum_mem hv
        simp only [Except.ok.injEq] at hlib
        subst hlib
        have := h.irreversible
        have := h.confirmed w
        omega

theorem bounded_closed (ev : Evaluators Name Tx Rest) : ClosedUnderBlocks ev Bounded where
  rest _ _ h := ⟨h.idNum, h.irreversible, h.confirmed⟩
  advance _ _ h hprev := (h.advanceHead hprev).1
  sign _ _ h hprev := (h.advanceHead hprev).1.updateSigningWitness (h.advanceHead hprev).2
  irreversible o _ h hlib := ⟨h.idNum, newLastIrreversible_le (o := o) h hlib, h.confirmed⟩

end Objects

namespace Node

/-- No confirmation passes `validate_block_header`. -/
def NoConfirmation (ev : Evaluators Name Tx Rest) (n : Node Name Tx Rest) : Step Name Tx → Prop
  | .confirmBlock b => n.objects.validateBlockHeader ev b ≠ .ok ()
  | _ => True

theorem confirmBlock_refused {ev : Evaluators Name Tx Rest} {b : SignedBlock Name Tx}
    {n : Node Name Tx Rest} (h : n.objects.validateBlockHeader ev b ≠ .ok ()) :
    (n.confirmBlock ev b).state = n := by
  rcases confirmBlock_cases ev b n with heq | ⟨hval, -⟩
  · exact heq
  · exact absurd hval h

/-- Every accepted confirmation puts its witness above the head. -/
theorem confirmBlock_above_head (ev : Evaluators Name Tx Rest) (b : SignedBlock Name Tx)
    {n : Node Name Tx Rest} (h : n.objects.Bounded)
    (hval : n.objects.validateBlockHeader ev b = .ok ()) :
    (n.confirmBlock ev b).state.headBlockNum <
      (n.confirmBlock ev b).state.objects.lastConfirmedBlockNum b.witness := by
  have hnum : b.blockNum = n.headBlockNum + 1 := by
    rw [SignedBlock.blockNum, Objects.previous_of_validateBlockHeader hval, h.idNum]
    rfl
  have hrec : ∀ lib, ({ n.objects.recordConfirmation b with
      lastIrreversibleBlockNum := lib } : Objects Name Rest).headBlockNumber <
      (n.objects.recordConfirmation b).lastConfirmedBlockNum b.witness := by
    intro lib
    simp only [Objects.recordConfirmation, if_true, hnum]
    exact Nat.lt_succ_self _
  rcases confirmBlock_cases ev b n with heq | ⟨-, -, heq | ⟨lib, -, heq⟩⟩
  · -- The header is not stale, since no confirmation was above the head.
    exfalso
    have hstale : ¬b.blockNum < n.objects.lastConfirmedBlockNum b.witness := by
      have := h.confirmed b.witness
      show ¬_
      rw [hnum]
      exact Nat.not_lt.mpr (Nat.le_succ_of_le this)
    have hconf : (n.confirmBlock ev b).state.objects.lastConfirmedBlockNum b.witness =
        b.blockNum := by
      unfold confirmBlock
      simp only [hval, hstale, if_false, updateLastIrreversibleBlock]
      split
      · simp [setObjects, objects, Objects.recordConfirmation]
      · rename_i lib _
        rw [(settleIrreversible_settled _).objects]
        simp [setObjects, objects, Objects.recordConfirmation]
    rw [heq] at hconf
    have := h.confirmed b.witness
    have hle : n.objects.lastConfirmedBlockNum b.witness ≤ n.headBlockNum := this
    omega
  · rw [heq]
    exact hrec n.objects.lastIrreversibleBlockNum
  · rw [heq]
    have hobj := (settleIrreversible_settled (n.setObjects { n.objects.recordConfirmation b with
      lastIrreversibleBlockNum := lib })).objects
    rw [headBlockNum, hobj]
    exact hrec lib

/-- One step of a run in which no confirmation is accepted. -/
theorem step_bounded (ev : Evaluators Name Tx Rest) (s : Step Name Tx) {n : Node Name Tx Rest}
    (h : n.Steady [] ∧ n.db.AllStates Objects.Bounded) (hs : n.NoConfirmation ev s) :
    (n.step ev s).Steady [] ∧ (n.step ev s).db.AllStates Objects.Bounded := by
  refine (allStates_keeps (Objects.bounded_closed ev) []).step s h ?_
  rintro b rfl
  rw [confirmBlock_refused hs]
  exact h

/-- Neither the last irreversible block nor a confirmation is above the head. -/
def NothingAboveHead (n : Node Name Tx Rest) : Prop :=
  n.objects.lastIrreversibleBlockNum ≤ n.headBlockNum ∧
    ∀ w, n.objects.lastConfirmedBlockNum w ≤ n.headBlockNum

/-- **Irreversibility bound.** In a run from an opened node, every state
reached has nothing above the head if and only if no confirmation of the
run passes `validate_block_header`. -/
theorem run_bounded (ev : Evaluators Name Tx Rest) (n : Node Name Tx Rest) (hopen : n.Opened)
    (hstart : n.NothingAboveHead) (steps : List (Step Name Tx)) :
    (∀ k, (n.run ev (steps.take k)).NothingAboveHead) ↔
      Along ev (NoConfirmation ev) n steps := by
  have h : n.Steady [] ∧ n.db.AllStates Objects.Bounded := by
    refine ⟨hopen.steady, ⟨hopen.headId, hstart.1, hstart.2⟩, fun e he => ?_⟩
    rw [hopen.stack] at he
    simp at he
  refine Lib.along_iff (I := fun m => m.Steady [] ∧ m.db.AllStates Objects.Bounded)
    (fun m s hm hs => step_bounded ev s hm hs)
    (fun m hm => ⟨hm.2.1.irreversible, hm.2.1.confirmed⟩) (fun m s hm hnext => ?_) steps h
  -- The state after an accepted confirmation shows it.
  cases s with
  | confirmBlock b =>
      intro hval
      exact absurd (confirmBlock_above_head ev b hm.2.1 hval) (Nat.not_lt.mpr (hnext.2 b.witness))
  | _ => trivial

end Node

/-- With one scheduled witness, its confirmation of the next block makes
that number irreversible before any such block is applied. -/
theorem confirm_above_head_solo :
    soloNode.Opened ∧ soloNode.NothingAboveHead ∧
    (soloNode.run soloWitness [.confirmBlock (soloBlock 864001 1 2 [])]).headBlockNum = 864000 ∧
    (soloNode.run soloWitness
      [.confirmBlock (soloBlock 864001 1 2 [])]).objects.lastIrreversibleBlockNum = 864001 ∧
    (soloNode.run soloWitness
      [.confirmBlock (soloBlock 864001 1 2 [])]).objects.lastConfirmedBlockNum 0 = 864001 := by
  refine ⟨soloNode_opened, ⟨by decide, fun _ => Nat.le_refl _⟩, ?_, ?_, ?_⟩ <;> decide +kernel

/-- A transaction and a block, and no confirmation. -/
theorem run_bounded_solo :
    (soloNode.run soloWitness [.pushTransaction 5,
      .pushBlock (soloBlock 864001 1 2 [])]).NothingAboveHead :=
  (Node.run_bounded soloWitness soloNode soloNode_opened ⟨by decide, fun _ => Nat.le_refl _⟩
    [.pushTransaction 5, .pushBlock (soloBlock 864001 1 2 [])]).mpr
    ⟨trivial, trivial, trivial⟩ 2

end Gamebank.Chain
