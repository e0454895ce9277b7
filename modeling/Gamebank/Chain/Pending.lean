import Gamebank.Chain.Deduplication
import Gamebank.Lib.Greedy

/-!
# Pending transactions across a block

`push_block` drops the pending session and works on the chain; a destructor
then pushes the transactions of the blocks it popped, and after them those
that were pending, whether `_push_block` returned or threw. What is left is
a greedy pass over both lists, on the objects `_push_block` leaves.
-/

namespace Gamebank.Chain

open Gamebank.Lib

universe u v w

variable {Name : Type u} {Tx : Type v} {Rest : Type w}

namespace Evaluators

/-- The objects after a transaction that is not known and does not throw. -/
def accepts (ev : Evaluators Name Tx Rest) (o : Objects Name Rest) (tx : Tx) :
    Option (Objects Name Rest) :=
  if ev.isKnownTransaction o.rest tx then none
  else
    match ev.applyTransaction o tx with
    | (_, some _) => none
    | (r, none) => some (o.setRest r)

theorem accepts_eq_some {ev : Evaluators Name Tx Rest} {o o' : Objects Name Rest} {tx : Tx} :
    ev.accepts o tx = some o' ↔ ev.isKnownTransaction o.rest tx = false ∧
      ∃ r, ev.applyTransaction o tx = (r, none) ∧ o' = o.setRest r := by
  unfold accepts
  cases hknown : ev.isKnownTransaction o.rest tx with
  | true => simp
  | false =>
      cases happly : ev.applyTransaction o tx with
      | mk r e =>
          cases e with
          | some e => simp
          | none => simp [eq_comm]

end Evaluators

namespace Node

variable {ev : Evaluators Name Tx Rest} {m s : Node Name Tx Rest}

/-! ## The destructor -/

/-- `s` is `m` with its pending transactions applied in a session of their own. -/
structure PendingOver (ev : Evaluators Name Tx Rest) (m s : Node Name Tx Rest) : Prop where
  objects : s.pendingTx.foldlM ev.accepts m.objects = some s.objects
  session : (s.pendingTxSession = none ∧ s.pendingTx = [] ∧ s.db = m.db) ∨
    (s.pendingTxSession = some m.objects ∧ s.db = m.db.startUndoSession.set s.objects)

theorem PendingOver.ensurePending (h : PendingOver ev m s) :
    s.ensurePending.pendingTxSession = some m.objects ∧
      s.ensurePending.db = m.db.startUndoSession.set s.objects ∧
      s.ensurePending.pendingTx = s.pendingTx ∧ s.ensurePending.poppedTx = s.poppedTx := by
  unfold Node.ensurePending
  rcases h.session with ⟨hnone, htx, hdb⟩ | ⟨hsome, hdb⟩
  · have hobj : s.objects = m.objects := congrArg SnapshotStack.cur hdb
    rw [hnone]
    refine ⟨congrArg some hobj, ?_, rfl, rfl⟩
    show s.db.startUndoSession = _
    rw [hobj, hdb]
    rfl
  · rw [hsome]
    exact ⟨hsome, hdb, rfl, rfl⟩

/-- One turn of the loops: the transaction is pushed if it is accepted. -/
theorem PendingOver.restoreTransaction (h : PendingOver ev m s) (tx : Tx) :
    PendingOver ev m (Node.restoreTransaction ev s tx) ∧
      (Node.restoreTransaction ev s tx).pendingTx = s.pendingTx ++ accepted ev.accepts s.objects
        [tx] ∧
      (Node.restoreTransaction ev s tx).objects = pass ev.accepts s.objects [tx] := by
  obtain ⟨hsession, hdb, htx, -⟩ := h.ensurePending
  have hobj :
    s.ensurePending.objects = s.objects := by rw [Node.objects, hdb, SnapshotStack.set_cur]
  have hne : s.ensurePending.db.stack ≠ [] := by simp [hdb]
  have hopened : PendingOver ev m s.ensurePending :=
    ⟨by rw [htx, hobj, h.objects], Or.inr ⟨hsession, by rw [hobj, hdb]⟩⟩
  cases haccepts : ev.accepts s.objects tx with
  | none =>
      have hnone : accepted ev.accepts s.objects [tx] = [] := by simp [accepted, haccepts]
      have hpass : pass ev.accepts s.objects [tx] = s.objects := by simp [Lib.pass, haccepts]
      rw [hnone, hpass, List.append_nil]
      unfold Node.restoreTransaction
      by_cases hknown : ev.isKnownTransaction s.objects.rest tx = true
      · rw [if_pos hknown]
        exact ⟨h, rfl, rfl⟩
      · rw [if_neg hknown, pushTransactionInner_eq ev tx s hne, hobj]
        rw [Evaluators.accepts, if_neg hknown] at haccepts
        cases hresult : ev.applyTransaction s.objects tx with
        | mk r thrown =>
            rw [hresult] at haccepts
            cases thrown with
            | some e => exact ⟨hopened, htx, hobj⟩
            | none => cases haccepts
  | some o =>
      obtain ⟨hknown, r, heq, rfl⟩ := Evaluators.accepts_eq_some.mp haccepts
      have hsome : accepted ev.accepts s.objects [tx] = [tx] := by simp [accepted, haccepts]
      have hpass :
        pass ev.accepts s.objects [tx] = s.objects.setRest r := by simp [Lib.pass, haccepts]
      rw [hsome, hpass]
      unfold Node.restoreTransaction
      rw [hknown, pushTransactionInner_eq ev tx s hne, hobj, heq, htx]
      refine ⟨⟨?_, Or.inr ⟨hsession, ?_⟩⟩, rfl, rfl⟩
      · show (s.pendingTx ++ [tx]).foldlM ev.accepts m.objects = some (s.objects.setRest r)
        rw [List.foldlM_append, h.objects]
        simp [haccepts]
      · show s.ensurePending.db.set (s.objects.setRest r) = _
        rw [hdb, SnapshotStack.set_set]
        rfl

theorem PendingOver.restoreTransactions (h : PendingOver ev m s) (txs : List Tx) :
    PendingOver ev m (txs.foldl (Node.restoreTransaction ev) s) ∧
      (txs.foldl (Node.restoreTransaction ev) s).pendingTx =
        s.pendingTx ++ accepted ev.accepts s.objects txs ∧
      (txs.foldl (Node.restoreTransaction ev) s).objects = pass ev.accepts s.objects txs := by
  induction txs generalizing s with
  | nil => exact ⟨h, (List.append_nil _).symm, rfl⟩
  | cons tx txs ih =>
      obtain ⟨hone, hpending, hobjects⟩ := h.restoreTransaction tx
      obtain ⟨hall, hpending', hobjects'⟩ := ih hone
      have happend : accepted ev.accepts s.objects ([tx] ++ txs) = _ := accepted_append _ [tx] txs
      have hpass : pass ev.accepts s.objects ([tx] ++ txs) = _ := pass_append _ [tx] txs
      refine ⟨hall, ?_, ?_⟩
      · rw [List.foldl_cons, hpending', hpending, hobjects, List.append_assoc, ← happend]
        rfl
      · rw [List.foldl_cons, hobjects', hobjects, ← hpass]
        rfl

/-- The destructor makes one greedy pass over the popped and the pending
transactions. -/
theorem restorePending_spec (ev : Evaluators Name Tx Rest) (pending : List Tx)
    (hnone : m.pendingTxSession = none) (htx : m.pendingTx = []) :
    PendingOver ev m (m.restorePending ev pending) ∧
      (m.restorePending ev pending).pendingTx =
        accepted ev.accepts m.objects (m.poppedTx ++ pending) ∧
      (m.restorePending ev pending).objects =
        pass ev.accepts m.objects (m.poppedTx ++ pending) := by
  have hstart : PendingOver ev m m := ⟨by rw [htx]; rfl, Or.inl ⟨hnone, htx, rfl⟩⟩
  obtain ⟨hpopped, htx', hobj'⟩ := hstart.restoreTransactions m.poppedTx
  unfold Node.restorePending
  generalize m.poppedTx.foldl (Node.restoreTransaction ev) m = n at hpopped htx' hobj'
  have hcleared : PendingOver ev m { n with poppedTx := [] } := ⟨hpopped.objects, hpopped.session⟩
  obtain ⟨hall, htx'', hobj''⟩ := hcleared.restoreTransactions pending
  refine ⟨hall, ?_, ?_⟩
  · rw [htx'', accepted_append, ← hobj']
    show n.pendingTx ++ _ = _
    rw [htx', htx]
    rfl
  · rw [hobj'', pass_append, ← hobj']
    rfl

/-! ## Inside `_push_block` -/

@[simp] theorem clearPending_pendingTx (n : Node Name Tx Rest) : n.clearPending.pendingTx = [] := by
  unfold Node.clearPending Node.resetPending
  split <;> rfl

@[simp] theorem clearPending_poppedTx (n : Node Name Tx Rest) :
    n.clearPending.poppedTx = n.poppedTx := by
  unfold Node.clearPending Node.resetPending
  split <;> rfl

variable [DecidableEq Name]

/-- Applying a block leaves the lists of transactions alone. -/
theorem applyInSession_waiting (ev : Evaluators Name Tx Rest) (b : SignedBlock Name Tx)
    (n : Node Name Tx Rest) :
    (n.applyInSession ev b).Post
      (fun m => m.pendingTxSession = n.pendingTxSession ∧ m.pendingTx = n.pendingTx ∧
        m.poppedTx = n.poppedTx)
      (fun m => m.pendingTxSession = n.pendingTxSession ∧ m.pendingTx = n.pendingTx ∧
        m.poppedTx = n.poppedTx) := by
  refine Result.Post.onError (E := fun m => m.pendingTxSession = n.pendingTxSession ∧
    m.pendingTx = n.pendingTx ∧ m.poppedTx = n.poppedTx) ?_ fun _ h => h
  refine applyBlock_post (fun _ => ⟨rfl, rfl, rfl⟩) (fun _ _ => ⟨rfl, rfl, rfl⟩)
    (fun _ _ => ⟨rfl, rfl, rfl⟩) ?_
  intro r lib s _ _ _ hs
  have hsame : s.pendingTxSession = n.pendingTxSession ∧ s.pendingTx = n.pendingTx ∧
      s.poppedTx = n.poppedTx := ⟨hs.pendingTxSession, hs.pendingTx, hs.poppedTx⟩
  exact ⟨hsame, fun r' => ⟨hsame, hsame⟩⟩

/-- `m` comes from `n` by applying blocks, popping the blocks `popped`, the
last popped first, and changes to the fork database. -/
inductive Unwound (ev : Evaluators Name Tx Rest) (n : Node Name Tx Rest) :
    List (SignedBlock Name Tx) → Node Name Tx Rest → Prop
  | start : Unwound ev n [] n
  | forkDb {popped m} (f : ForkDatabase Name Tx) :
      Unwound ev n popped m → Unwound ev n popped { m with forkDb := f }
  | apply {popped m} (b : SignedBlock Name Tx) :
      Unwound ev n popped m → Unwound ev n popped (m.applyInSession ev b).state
  | pop {popped m m'} (pinned : List (ForkItem Name Tx)) (b : SignedBlock Name Tx) :
      Unwound ev n popped m → m.fetchBlockById m.headBlockId = some b →
      m.popBlock pinned = .ok m' → Unwound ev n (b :: popped) m'

namespace Unwound

variable {n : Node Name Tx Rest} {popped : List (SignedBlock Name Tx)}

/-- `_push_block` leaves the pending transactions alone and collects those of
the blocks it pops in the order of the chain. -/
theorem spec (h : Unwound ev n popped m) (hnone : n.pendingTxSession = none) :
    m.pendingTxSession = none ∧ m.pendingTx = n.pendingTx ∧
      m.poppedTx = popped.flatMap SignedBlock.transactions ++ n.poppedTx := by
  induction h with
  | start => exact ⟨hnone, rfl, rfl⟩
  | forkDb f h ih => exact ih
  | @apply popped m b h ih =>
      have happly := Result.post_state.mp (applyInSession_waiting ev b m)
      exact ⟨happly.1.trans ih.1, happly.2.1.trans ih.2.1, happly.2.2.trans ih.2.2⟩
  | @pop popped m m' pinned b h hfetch hpop ih =>
      unfold Node.popBlock at hpop
      simp only [KeepsBranch.resetPending_eq ih.1, hfetch] at hpop
      split at hpop
      · cases hpop
      · cases hpop
        exact ⟨ih.1, ih.2.1, by simp [ih.2.2]⟩

end Unwound

/-- Some blocks were popped on the way to `m`. -/
def Unwinds (ev : Evaluators Name Tx Rest) (n m : Node Name Tx Rest) : Prop :=
  ∃ popped, Unwound ev n popped m

variable {n : Node Name Tx Rest}

theorem Unwinds.popBlock (pinned : List (ForkItem Name Tx)) (h : Unwinds ev n m)
    (hnone : n.pendingTxSession = none) :
    (m.popBlock pinned).Post (Unwinds ev n) (Unwinds ev n) := by
  obtain ⟨popped, h⟩ := h
  have hreset := KeepsBranch.resetPending_eq (h.spec hnone).1
  cases hpop : m.popBlock pinned with
  | ok m' =>
      cases hfetch : m.fetchBlockById m.headBlockId with
      | none => simp [Node.popBlock, hreset, hfetch] at hpop
      | some b => exact ⟨b :: popped, h.pop pinned b hfetch hpop⟩
  | error e m' =>
      -- An exception leaves the node as it was.
      have hsame : m' = m := by
        unfold Node.popBlock at hpop
        simp only [hreset] at hpop
        split at hpop
        · cases hpop
          rfl
        · split at hpop <;> cases hpop
          rfl
      exact ⟨popped, hsame ▸ h⟩

theorem Unwinds.popUntil (pinned : List (ForkItem Name Tx)) (fork : BlockId) (h : Unwinds ev n m)
    (hnone : n.pendingTxSession = none) :
    (m.popUntil pinned fork).Post (Unwinds ev n) (Unwinds ev n) := by
  refine (Result.whileLoop_post (I := Unwinds ev n) (E := Unwinds ev n) ?_ (fun _ hs => hs) _ h).imp
    (fun s hs => hs.1) fun s hs => hs
  exact fun s hs _ => hs.popBlock pinned hnone

theorem Unwinds.applyInSession (b : SignedBlock Name Tx) (h : Unwinds ev n m) :
    (m.applyInSession ev b).Post (Unwinds ev n) (Unwinds ev n) := by
  obtain ⟨popped, h⟩ := h
  exact Result.post_state.mpr ⟨popped, h.apply b⟩

theorem Unwinds.setForkDb (f : ForkDatabase Name Tx) (h : Unwinds ev n m) :
    Unwinds ev n { m with forkDb := f } := by
  obtain ⟨popped, h⟩ := h
  exact ⟨popped, h.forkDb f⟩

theorem Unwinds.pushBranch (pinned : List (ForkItem Name Tx)) (old : ForkDatabase.Branch Name Tx)
    (fork : BlockId) (items : List (ForkItem Name Tx)) (h : Unwinds ev n m)
    (hnone : n.pendingTxSession = none) :
    (m.pushBranch ev pinned old fork items).Post (Unwinds ev n) (Unwinds ev n) := by
  induction items generalizing m with
  | nil => exact h
  | cons item rest ih =>
      unfold Node.pushBranch
      have happly := h.applyInSession item.data
      cases hr : m.applyInSession ev item.data with
      | ok m' =>
          rw [hr] at happly
          exact ih happly
      | error e m' =>
          rw [hr] at happly
          refine Result.Post.andThen (M := Unwinds ev n) ?_ fun s hs => hs
          refine Result.Post.andThen ((Unwinds.setForkDb _ happly).popUntil pinned fork hnone) ?_
          exact fun s hs => Result.forEach_post (fun item _ s hs => hs.applyInSession item.data) hs

/-- `_push_block` is made of these steps, whether it returns or throws. -/
theorem pushBlockInner_unwound (ev : Evaluators Name Tx Rest) (b : SignedBlock Name Tx)
    (hnone : n.pendingTxSession = none) :
    ∃ popped, Unwound ev n popped (n.pushBlockInner ev b).state := by
  have hstart : Unwinds ev n n := ⟨[], .start⟩
  suffices hpost : (n.pushBlockInner ev b).Post (Unwinds ev n) (Unwinds ev n) from
    Result.post_state.mp hpost
  unfold Node.pushBlockInner
  split
  · exact hstart
  · rename_i f hf
    have hpushed := hstart.setForkDb f
    simp only
    split
    · exact hpushed
    · rename_i newHead hhead
      split
      · split
        · unfold switchForks
          split
          · exact hpushed
          · rename_i first second _
            split
            · exact hpushed
            · rename_i last _
              refine Result.Post.andThen (hpushed.popUntil _ last.previousId hnone) fun m hm => ?_
              exact hm.pushBranch _ second last.previousId first.reverse hnone
        · exact hpushed
      · exact Result.Post.onError (hpushed.applyInSession b) fun m hm => hm.setForkDb _

end Node

/-! ## After `push_block` -/

namespace Handlers

variable {Inner : Type w} {h : Handlers Name Tx Inner} {o o' : Objects Name (Guarded Name Tx Inner)}

/-- Accepted one after the other is applied as the transactions of a block are. -/
theorem applyTransactions_of_accepts {txs : List Tx}
    (haccepts : txs.foldlM h.evaluators.accepts o = some o') :
    h.applyTransactions txs o = (o'.rest, none) := by
  induction txs generalizing o with
  | nil =>
      cases haccepts
      rfl
  | cons tx txs ih =>
      rw [List.foldlM_cons, Option.bind_eq_bind, Option.bind_eq_some_iff] at haccepts
      obtain ⟨p, hone, hrest⟩ := haccepts
      obtain ⟨-, r, happly, rfl⟩ := Evaluators.accepts_eq_some.mp hone
      change h.applyTransaction o tx = (r, none) at happly
      simp only [applyTransactions, happly]
      exact ih hrest

/-- What `push_block` leaves pending of `pending` over `m`, the node as
`_push_block` left it. -/
structure Restored (h : Handlers Name Tx Inner) (pending : List Tx)
    (m t : Node Name Tx (Guarded Name Tx Inner)) : Prop where
  sublist : t.pendingTx.Sublist (m.poppedTx ++ pending)
  nodup : (t.pendingTx.map h.trxId).Nodup
  fresh : h.NoCollision (t.objects.rest.positions ++ t.pendingTx) →
    ∀ tx ∈ t.pendingTx, ∀ u ∈ t.objects.rest.positions, h.trxId u ≠ h.trxId tx
  complete : ∀ before tx later, m.poppedTx ++ pending = before ++ tx :: later →
    (pass h.evaluators.accepts m.objects before).rest.isKnownTransaction (h.trxId tx) = false →
    (h.applyTransaction (pass h.evaluators.accepts m.objects before) tx).2 = none →
    tx ∈ t.pendingTx
  sessions : Node.PendingOver h.evaluators m t

/-- The destructor over a node whose chain is guarded. -/
theorem Guards.restored {m : Node Name Tx (Guarded Name Tx Inner)} (hg : h.Guards m.objects)
    (hsession : m.pendingTxSession = none) (htx : m.pendingTx = []) (pending : List Tx) :
    h.Restored pending m (m.restorePending h.evaluators pending) := by
  obtain ⟨hover, haccepted, -⟩ := Node.restorePending_spec h.evaluators pending hsession htx
  generalize m.restorePending h.evaluators pending = t at hover haccepted
  have happly := applyTransactions_of_accepts hover.objects
  have hall := applyTransactions_eq_ok happly
  have hpositions : t.objects.rest.positions = m.objects.rest.positions := by
    have hgrows := applyTransactions_grows h t.pendingTx m.objects
    rw [happly] at hgrows
    exact hgrows.positions
  refine ⟨?_, hall.nodup, ?_, ?_, hover⟩
  · rw [haccepted]
    exact accepted_sublist _ _
  · intro hdigest tx htx u hu hid
    have hdiffer := hall.before u (hg.recorded u (hpositions ▸ hu)) tx htx
    exact hdiffer hid (hdigest u (List.mem_append_left _ hu) tx (List.mem_append_right _ htx) hid)
  · intro before tx later hsplit hunknown happlies
    rw [haccepted, hsplit]
    refine mem_accepted _ before later fun hrefused => ?_
    have haccepts : h.evaluators.accepts (pass h.evaluators.accepts m.objects before) tx =
        some ((pass h.evaluators.accepts m.objects before).setRest
          (h.applyTransaction (pass h.evaluators.accepts m.objects before) tx).1) :=
      Evaluators.accepts_eq_some.mpr ⟨hunknown, _, Prod.ext rfl happlies, rfl⟩
    rw [hrefused] at haccepts
    cases haccepts

variable [DecidableEq Name]

/-- **Pending transactions survive a block.** After any calls, `push_block`
with any block, whether it returns or throws, leaves pending a greedy pass
over the transactions of the blocks it popped, in the order of the chain, and
those that were pending; and the current state is that of the head block with
them applied in the pending session. -/
theorem pending_restored (h : Handlers Name Tx Inner) (n : Node Name Tx (Guarded Name Tx Inner))
    (hopen : n.Opened) (hstart : n.objects.rest.blocks = []) (steps : List (Step Name Tx))
    (b : SignedBlock Name Tx) :
    (∃ popped, Node.Unwound h.evaluators (n.run h.evaluators steps).clearPending popped
        ((n.run h.evaluators steps).clearPending.pushBlockInner h.evaluators b).state ∧
      ((n.run h.evaluators steps).clearPending.pushBlockInner h.evaluators b).state.poppedTx =
        popped.flatMap SignedBlock.transactions ++ (n.run h.evaluators steps).poppedTx) ∧
    h.Restored (n.run h.evaluators steps).pendingTx
      ((n.run h.evaluators steps).clearPending.pushBlockInner h.evaluators b).state
      ((n.run h.evaluators steps).pushBlock h.evaluators b).state := by
  have hguards := (guards_kept h).run steps (guards_opened (h := h) hopen hstart)
  generalize n.run h.evaluators steps = s at hguards
  have hnone : s.clearPending.pendingTxSession = none := Node.resetPending_noPending _
  obtain ⟨popped, hunwound⟩ := Node.pushBlockInner_unwound h.evaluators b hnone
  obtain ⟨hsession, htx, hpopped⟩ := hunwound.spec hnone
  rw [Node.clearPending_pendingTx] at htx
  rw [Node.clearPending_poppedTx] at hpopped
  have hm := ((guards_kept h).pushBlockInner b hnone
    (Node.resetPending_allStates (n := { s with pendingTx := [] }) hguards)).2.1
  refine ⟨⟨popped, hunwound, hpopped⟩, ?_⟩
  rw [Node.pushBlock, Result.state_onExit]
  exact hm.restored hsession htx s.pendingTx

end Handlers

/-- A transaction in a block, one pending, and a block beside the first. -/
def beforeSwitch : List (Step Nat (Nat × Nat)) :=
  [.pushBlock (guardedBlock 6 1 2 [(1, 60)]), .pushTransaction (2, 60),
    .pushBlock (guardedBlock 6 1 3 [])]

/-- The block on top of that makes the node switch forks; the transaction of
the block popped is pending again, before the other. -/
theorem pending_restored_switch :
    ((guardedNode.run soloHandlers.evaluators beforeSwitch).pushBlock soloHandlers.evaluators
        (guardedBlock 7 3 4 [])).state.pendingTx = [(1, 60), (2, 60)] ∧
      soloHandlers.Restored (guardedNode.run soloHandlers.evaluators beforeSwitch).pendingTx
        ((guardedNode.run soloHandlers.evaluators beforeSwitch).clearPending.pushBlockInner
          soloHandlers.evaluators (guardedBlock 7 3 4 [])).state
        ((guardedNode.run soloHandlers.evaluators beforeSwitch).pushBlock soloHandlers.evaluators
          (guardedBlock 7 3 4 [])).state :=
  ⟨by decide +kernel, (Handlers.pending_restored soloHandlers guardedNode
    ⟨rfl, rfl, rfl, rfl, rfl, rfl, rfl, rfl⟩ rfl beforeSwitch (guardedBlock 7 3 4 [])).2⟩

end Gamebank.Chain
