import Gamebank.Chain.ForkFrames
import Gamebank.Chain.Irreversibility

/-!
# What every routine keeps, every state has

A property of the objects that `_apply_transaction`, the parts of
`_apply_block` and `confirm_block` keep, also where they throw, holds of the
current objects and of every snapshot after any call: whichever state the
undo stack gives back, it was made by these routines.
-/

namespace Gamebank.Chain

open Gamebank.Lib

universe u v w

variable {Name : Type u} {Tx : Type v} {Rest : Type w} [DecidableEq Name]

/-- The routines keep `P`, whether they return or throw. -/
structure KeptByRoutines (ev : Evaluators Name Tx Rest) (P : Objects Name Rest → Prop) :
    Prop where
  transaction : ∀ o tx, P o → P (o.setRest (ev.applyTransaction o tx).1)
  header : ∀ o b, P o → P (o.applyHeader ev b).1
  confirmation : ∀ o (b : SignedBlock Name Tx), P o → P (o.recordConfirmation b)
  irreversible : ∀ o lib, P o → P { o with lastIrreversibleBlockNum := lib }
  finish : ∀ o b, P o → P (o.setRest (ev.finish o b).1)

/-- The same of the routines but `confirm_block`, where the last ones of
`_apply_block` keep `P` only for the block that is the head. -/
structure KeptByPushes (ev : Evaluators Name Tx Rest) (P : Objects Name Rest → Prop) :
    Prop where
  transaction : ∀ o tx, P o → P (o.setRest (ev.applyTransaction o tx).1)
  header : ∀ o b, P o → P (o.applyHeader ev b).1
  irreversible : ∀ o lib, P o → P { o with lastIrreversibleBlockNum := lib }
  finish : ∀ o b, P o → o.applied.head? = some b.id → P (o.setRest (ev.finish o b).1)

/-- The same with the confirmations that `confirm_block` accepts. -/
structure KeptByBlocks (ev : Evaluators Name Tx Rest) (P : Objects Name Rest → Prop) : Prop
    extends KeptByPushes ev P where
  confirmation : ∀ o b, P o → o.validateBlockHeader ev b = .ok () → P (o.recordConfirmation b)

theorem KeptByRoutines.toBlocks {ev : Evaluators Name Tx Rest} {P : Objects Name Rest → Prop}
    (hP : KeptByRoutines ev P) : KeptByBlocks ev P where
  transaction := hP.transaction
  header := hP.header
  irreversible := hP.irreversible
  finish o b h _ := hP.finish o b h
  confirmation o b h _ := hP.confirmation o b h

/-- After a header that went through, its block is the last one applied. -/
theorem Objects.applied_of_applyHeader {ev : Evaluators Name Tx Rest} {o o' : Objects Name Rest}
    {b : SignedBlock Name Tx} (h : o.applyHeader ev b = (o', none)) :
    o'.applied.head? = some b.id := by
  rcases Objects.applyHeader_cases ev o b with ⟨r, e, heq⟩ | ⟨r, e, -, heq⟩ | ⟨r, -, heq⟩
  · rw [h] at heq
    cases heq
  · rw [h] at heq
    cases heq
  · rw [h] at heq
    rw [(Prod.mk.inj heq).1, Objects.updateSigningWitness_applied]
    rfl

namespace KeptByPushes

variable {ev : Evaluators Name Tx Rest} {P : Objects Name Rest → Prop}

theorem updateLastIrreversibleBlock (hP : KeptByPushes ev P) {n : Node Name Tx Rest}
    (h : n.db.AllStates P) :
    (n.updateLastIrreversibleBlock ev).Post
      (fun m => m.db.AllStates P ∧ m.objects.applied = n.objects.applied)
      (fun m => m.db.AllStates P) := by
  unfold Node.updateLastIrreversibleBlock
  cases n.objects.newLastIrreversible ev with
  | error e => exact h
  | ok lib =>
      have hset := (h.set (hP.irreversible _ lib h.1)).commit lib
      simp only
      generalize hstart : n.setObjects _ = m
      have hsettled : m.settleIrreversible.state.db.AllStates P ∧
          m.settleIrreversible.state.objects.applied = n.objects.applied := by
        rw [Node.objects, (Node.settleIrreversible_settled m).db, ← hstart]
        exact ⟨hset, rfl⟩
      exact (Result.post_state.mpr hsettled).imp (fun m hm => hm) (fun m hm => hm.1)

theorem applyBlock (hP : KeptByPushes ev P) (b : SignedBlock Name Tx) {n : Node Name Tx Rest}
    (h : n.db.AllStates P) :
    (n.applyBlock ev b).Post (fun m => m.db.AllStates P) (fun m => m.db.AllStates P) := by
  have hheader := hP.header n.objects b h.1
  unfold Node.applyBlock
  simp only [show (n.noteContract ev b).objects = n.objects from rfl]
  cases happly : n.objects.applyHeader ev b with
  | mk o e =>
      rw [happly] at hheader
      have hset : ((n.noteContract ev b).setObjects o).db.AllStates P := h.set hheader
      cases e with
      | some e => exact hset
      | none =>
          have hhead := Objects.applied_of_applyHeader happly
          refine Result.Post.andThen (hP.updateLastIrreversibleBlock hset) fun m hm => ?_
          have hlast : m.objects.applied.head? = some b.id := by
            rw [hm.2]
            exact hhead
          have hfinish := hP.finish m.objects b hm.1.1 hlast
          unfold Node.finishBlock
          cases hrest : ev.finish m.objects b with
          | mk r e =>
              rw [hrest] at hfinish
              cases e with
              | none => exact hm.1.set hfinish
              | some e => exact hm.1.set hfinish

theorem applyInSession (hP : KeptByPushes ev P) (b : SignedBlock Name Tx)
    {n : Node Name Tx Rest} (h : n.db.AllStates P) :
    (n.applyInSession ev b).Post (fun m => m.db.AllStates P) (fun m => m.db.AllStates P) :=
  Result.Post.onError (hP.applyBlock b (n := { n with db := n.db.startUndoSession })
    h.startUndoSession) fun _ hs => hs.undo

/-- Inside `push_block` no pending session is open. -/
theorem keepsBranch (hP : KeptByPushes ev P) (fork : BlockId) :
    Node.KeepsBranch ev fork (fun n => n.pendingTxSession = none ∧ n.db.AllStates P) where
  noPending _ h := h.1
  congr n n' h hs := ⟨hs.pendingTxSession ▸ h.1, hs.db ▸ h.2⟩
  undo _ h _ := ⟨h.1, h.2.undo⟩
  applyInSession b n h := by
    have hpending := (Node.applyInSession_pending ev b n).imp (fun m hm => hm.trans h.1)
      (fun m hm => hm.trans h.1)
    exact hpending.and (hP.applyInSession b h.2)

theorem pushBlockInner (hP : KeptByPushes ev P) (b : SignedBlock Name Tx)
    {n : Node Name Tx Rest} (hp : n.pendingTxSession = none) (h : n.db.AllStates P) :
    (n.pushBlockInner ev b).state.pendingTxSession = none ∧
      (n.pushBlockInner ev b).state.db.AllStates P := by
  have hcongr := (hP.keepsBranch BlockId.zero).congr
  refine Result.post_state.mp (Node.pushBlockInner_post (fun m hs => hcongr n m ⟨hp, h⟩ hs) ?_
    hcongr ?_)
  · exact fun m hs => (hP.keepsBranch BlockId.zero).applyInSession b m (hcongr n m ⟨hp, h⟩ hs)
  · intro f _ _ _ last _ _ _ _ _ _
    exact ⟨_, hP.keepsBranch last.previousId, ⟨hp, h⟩, fun m hm => hm⟩

/-! ## Transactions -/

omit [DecidableEq Name] in
theorem ensurePending_allStates {n : Node Name Tx Rest} (h : n.db.AllStates P) :
    n.ensurePending.db.AllStates P := by
  unfold Node.ensurePending
  split
  · exact h
  · exact h.startUndoSession

theorem pushTransactionInner (hP : KeptByPushes ev P) (tx : Tx) {n : Node Name Tx Rest}
    (h : n.db.AllStates P) : (n.pushTransactionInner ev tx).state.db.AllStates P := by
  have hopen := (ensurePending_allStates h).startUndoSession
  have hrest := hP.transaction _ tx hopen.1
  unfold Node.pushTransactionInner
  rw [show (if n.pendingTxSession.isSome then n else n.openPending) = n.ensurePending from rfl]
  simp only [Node.objects]
  cases happly : ev.applyTransaction n.ensurePending.db.startUndoSession.cur tx with
  | mk r e =>
      rw [happly] at hrest
      cases e with
      | some e => exact (hopen.set hrest).undo
      | none => exact (hopen.set hrest).squash

theorem restoreTransactions (hP : KeptByPushes ev P) (txs : List Tx) {n : Node Name Tx Rest}
    (h : n.db.AllStates P) : (txs.foldl (Node.restoreTransaction ev) n).db.AllStates P := by
  induction txs generalizing n with
  | nil => exact h
  | cons tx txs ih =>
      refine ih ?_
      unfold Node.restoreTransaction
      split
      · exact h
      · exact hP.pushTransactionInner tx h

theorem takeTransactions (hP : KeptByPushes ev P) (size time : Nat) (txs : List Tx)
    {acc : Node Name Tx Rest × List Tx × Nat} (h : acc.1.db.AllStates P) :
    (txs.foldl (Node.takeTransaction ev size time) acc).1.db.AllStates P := by
  induction txs generalizing acc with
  | nil => exact h
  | cons tx txs ih =>
      refine ih ?_
      obtain ⟨n, taken, total⟩ := acc
      have hopen := h.startUndoSession
      have hrest := hP.transaction _ tx hopen.1
      unfold Node.takeTransaction
      simp only [Node.objects]
      split
      · exact h
      · split
        · exact h
        · cases happly : ev.applyTransaction n.db.startUndoSession.cur tx with
          | mk r e =>
              rw [happly] at hrest
              cases e with
              | some e => exact (hopen.set hrest).undo
              | none => exact (hopen.set hrest).squash

/-! ## Calls -/

theorem pushBlock (hP : KeptByPushes ev P) (b : SignedBlock Name Tx) {n : Node Name Tx Rest}
    (h : n.db.AllStates P) : (n.pushBlock ev b).state.db.AllStates P := by
  have hclear : n.clearPending.db.AllStates P :=
    Node.resetPending_allStates (n := { n with pendingTx := [] }) h
  have hinner := (hP.pushBlockInner b (Node.resetPending_noPending _) hclear).2
  have hrestore : ∀ m : Node Name Tx Rest, m.db.AllStates P →
      (m.restorePending ev n.pendingTx).db.AllStates P :=
    fun m hm => hP.restoreTransactions _ (hP.restoreTransactions m.poppedTx hm)
  unfold Node.pushBlock Node.clearPending
  generalize Node.pushBlockInner ev b _ = r at hinner
  cases r with
  | ok m => exact hrestore m hinner
  | error e m => exact hrestore m hinner

theorem generateBlock (hP : KeptByPushes ev P) (headerSize time : Nat) (owner : Name)
    (key : Nat) {n : Node Name Tx Rest} (h : n.db.AllStates P) :
    (n.generateBlock ev headerSize time owner key).state.db.AllStates P := by
  have hopen : n.resetPending.openPending.db.AllStates P :=
    (Node.resetPending_allStates h).startUndoSession
  have hassembled : (n.assembleBlock ev headerSize time owner key).1.db.AllStates P :=
    Node.resetPending_allStates (hP.takeTransactions _ time n.pendingTx hopen)
  unfold Node.generateBlock
  simp only
  split
  · exact h
  · split
    · exact h
    · split
      · exact h
      · split
        · exact h
        · split
          · exact hP.pushBlock _ hassembled
          · exact hassembled

omit [DecidableEq Name] in
theorem popBlock {n : Node Name Tx Rest} (h : n.db.AllStates P) :
    (n.popBlock []).state.db.AllStates P := by
  have hreset := Node.resetPending_allStates h
  unfold Node.popBlock
  simp only
  split
  · exact hreset
  · split
    · exact hreset
    · exact hreset.undo

/-- Every call, but that `confirm_block` accepts nothing. -/
theorem step (hP : KeptByPushes ev P) (s : Step Name Tx) {n : Node Name Tx Rest}
    (h : n.db.AllStates P) (hs : n.NoConfirmation ev s) : (n.step ev s).db.AllStates P := by
  cases s with
  | pushBlock b => exact hP.pushBlock b h
  | pushTransaction tx =>
      unfold Node.step Node.callStep Node.pushTransaction
      simp only
      split
      · exact hP.pushTransactionInner tx h
      · exact h
  | generateBlock headerSize time owner key => exact hP.generateBlock headerSize time owner key h
  | popBlock => exact popBlock h
  | confirmBlock b =>
      show (n.confirmBlock ev b).state.db.AllStates P
      rw [Node.confirmBlock_refused hs]
      exact h

theorem run (hP : KeptByPushes ev P) (steps : List (Step Name Tx)) {n : Node Name Tx Rest}
    (h : n.db.AllStates P) (hs : Node.Along ev (Node.NoConfirmation ev) n steps) :
    (n.run ev steps).db.AllStates P := by
  induction steps generalizing n with
  | nil => exact h
  | cons s steps ih => exact ih (hP.step s h hs.1) hs.2

end KeptByPushes

namespace KeptByBlocks

variable {ev : Evaluators Name Tx Rest} {P : Objects Name Rest → Prop}

theorem confirmBlock (hP : KeptByBlocks ev P) (b : SignedBlock Name Tx) {n : Node Name Tx Rest}
    (h : n.db.AllStates P) : (n.confirmBlock ev b).state.db.AllStates P := by
  unfold Node.confirmBlock
  split
  · exact h
  · rename_i hvalid
    split
    · exact h
    · have hset : (n.setObjects (n.objects.recordConfirmation b)).db.AllStates P :=
        h.set (hP.confirmation _ b h.1 hvalid)
      have hkept := hP.updateLastIrreversibleBlock hset
      exact Result.post_state.mp (hkept.imp (fun m hm => hm.1) (fun m hm => hm))

theorem run (hP : KeptByBlocks ev P) (steps : List (Step Name Tx)) {n : Node Name Tx Rest}
    (h : n.db.AllStates P) : (n.run ev steps).db.AllStates P := by
  induction steps generalizing n with
  | nil => exact h
  | cons s steps ih =>
      refine ih ?_
      cases s with
      | confirmBlock b => exact hP.confirmBlock b h
      | _ => exact hP.toKeptByPushes.step _ h trivial

end KeptByBlocks

namespace KeptByRoutines

variable {ev : Evaluators Name Tx Rest} {P : Objects Name Rest → Prop}

theorem pushBlockInner (hP : KeptByRoutines ev P) (b : SignedBlock Name Tx)
    {n : Node Name Tx Rest} (hp : n.pendingTxSession = none) (h : n.db.AllStates P) :
    (n.pushBlockInner ev b).state.pendingTxSession = none ∧
      (n.pushBlockInner ev b).state.db.AllStates P :=
  hP.toBlocks.toKeptByPushes.pushBlockInner b hp h

theorem run (hP : KeptByRoutines ev P) (steps : List (Step Name Tx)) {n : Node Name Tx Rest}
    (h : n.db.AllStates P) : (n.run ev steps).db.AllStates P :=
  hP.toBlocks.run steps h

end KeptByRoutines

end Gamebank.Chain
