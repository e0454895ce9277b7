import Gamebank.Chain.Frames

/-!
# Revisions and blocks

With no pending session open, the undo stack of a node has one state for
each block above the last committed one, and the revision is the number of
the head block. `Steady` states this; every entry point keeps it, with one
exception: a confirmation accepted while a pending session is open can make
the number after the head irreversible, and `commit` then takes the
pending session's own undo state (`ConfirmKeepsSession` is the condition
that it does not).

Along the way the invariant remembers that the chain up to the last
committed block extends a given chain `kept`: what is committed is not
popped.
-/

namespace Gamebank.Chain

open Gamebank.Lib

universe u v w

variable {Name : Type u} {Tx : Type v} {Rest : Type w}

/-- The head block of `o` has the number `m`, and `chain` was applied. -/
structure Objects.At (o : Objects Name Rest) (m : Nat) (chain : List BlockId) : Prop where
  num : o.headBlockNumber = m
  idNum : o.headBlockId.num = m
  applied : o.applied = chain

/-- The undo states below height `m` of a chain: revision `m` over the state
without the newest block, and so on down. -/
def Ladder : Nat → List BlockId → List (Int × Objects Name Rest) → Prop
  | _, _, [] => True
  | m + 1, _ :: chain, e :: rest => e.1 = (m : Int) + 1 ∧ e.2.At m chain ∧ Ladder m chain rest
  | _, _, _ => False

/-- One undo state for each block in `(committed, m]`, the revision `m`, and
the chain up to `committed` extends `kept`. -/
structure OneStateEach (kept : List BlockId) (m : Nat) (chain : List BlockId)
    (db : SnapshotStack (Objects Name Rest)) (committed : Nat) : Prop where
  revision : db.revision = m
  ladder : Ladder m chain db.stack
  length : db.stack.length + committed = m
  extends_kept : kept <:+ chain.drop (m - committed)

/-! ## Ladders -/

theorem Ladder.getElem? {m : Nat} {chain : List BlockId} {l : List (Int × Objects Name Rest)}
    (h : Ladder m chain l) {i : Nat} {e : Int × Objects Name Rest} (he : l[i]? = some e) :
    e.1 = (m : Int) - i ∧ e.2.At (m - 1 - i) (chain.drop (i + 1)) ∧ i < m := by
  induction l generalizing m chain i with
  | nil => simp at he
  | cons d rest ih =>
      obtain _ | m := m
      · exact h.elim
      obtain _ | ⟨id, chain⟩ := chain
      · exact h.elim
      obtain ⟨hrev, hat, hrest⟩ := h
      obtain _ | i := i
      · simp only [List.getElem?_cons_zero, Option.some.injEq] at he
        subst he
        exact ⟨by simp [hrev], by simpa using hat, by omega⟩
      · simp only [List.getElem?_cons_succ] at he
        obtain ⟨h1, h2, h3⟩ := ih hrest he
        refine ⟨by push_cast; omega, ?_, by omega⟩
        have : m + 1 - 1 - (i + 1) = m - 1 - i := by omega
        rwa [this, List.drop_succ_cons]

theorem Ladder.take {m : Nat} {chain : List BlockId} {l : List (Int × Objects Name Rest)}
    (h : Ladder m chain l) (k : Nat) : Ladder m chain (l.take k) := by
  induction l generalizing m chain k with
  | nil =>
      rw [List.take_nil]
      exact h
  | cons e rest ih =>
      obtain _ | m := m
      · exact h.elim
      obtain _ | ⟨id, chain⟩ := chain
      · exact h.elim
      obtain _ | k := k
      · trivial
      · exact ⟨h.1, h.2.1, ih h.2.2 k⟩

namespace OneStateEach

variable {kept : List BlockId} {m committed : Nat} {chain : List BlockId}
  {db : SnapshotStack (Objects Name Rest)}

theorem contiguous (h : OneStateEach kept m chain db committed) : db.Contiguous := by
  intro i e he
  rw [h.revision]
  exact (h.ladder.getElem? he).1

theorem set (h : OneStateEach kept m chain db committed) (o : Objects Name Rest) :
    OneStateEach kept m chain (db.set o) committed :=
  ⟨h.revision, h.ladder, h.length, h.extends_kept⟩

theorem startUndoSession (h : OneStateEach kept m chain db committed) (hc : db.cur.At m chain)
    (id : BlockId) : OneStateEach kept (m + 1) (id :: chain) db.startUndoSession committed := by
  have hlen := h.length
  refine ⟨?_, ⟨?_, hc, h.ladder⟩, ?_, ?_⟩
  · simp [h.revision]
  · simp [h.revision]
  · simp only [SnapshotStack.startUndoSession_stack, List.length_cons]
    omega
  · have : m + 1 - committed = (m - committed) + 1 := by omega
    rw [this, List.drop_succ_cons]
    exact h.extends_kept

/-- Undoing a state of the ladder goes one block down. -/
theorem undo {id : BlockId} (h : OneStateEach kept (m + 1) (id :: chain) db committed)
    (hne : db.stack ≠ []) :
    OneStateEach kept m chain db.undo committed ∧ db.undo.cur.At m chain := by
  obtain ⟨e, rest, hs⟩ := List.exists_cons_of_ne_nil hne
  have hl := h.ladder
  have hlen := h.length
  have hkept := h.extends_kept
  rw [hs] at hl hlen
  rw [SnapshotStack.undo_of_cons hs]
  simp only [List.length_cons] at hlen
  refine ⟨⟨?_, hl.2.2, ?_, ?_⟩, hl.2.1⟩
  · simp [h.revision]
  · simp only
    omega
  · have : m + 1 - committed = (m - committed) + 1 := by omega
    rwa [this, List.drop_succ_cons] at hkept

/-- Committing to `r` drops the states up to `r`; the last block committed
is `r` or the highest block there is. -/
theorem commit (h : OneStateEach kept m chain db committed) (r k : Nat)
    (hk : min r k = min r m) :
    OneStateEach kept m chain (db.commit r) (max committed (min r k)) := by
  have hstack := h.contiguous.commit_stack r
  have hlen := h.length
  refine ⟨h.revision, ?_, ?_, ?_⟩
  · rw [hstack]
    exact h.ladder.take _
  · rw [hstack, List.length_take, h.revision, hk]
    omega
  · have : m - committed = (m - max committed (min r k)) +
        (max committed (min r k) - committed) := by omega
    have hsuffix : chain.drop (m - committed) <:+
        chain.drop (m - max committed (min r k)) := by
      rw [this, ← List.drop_drop]
      exact List.drop_suffix _ _
    exact h.extends_kept.trans hsuffix

theorem head?_commit (h : OneStateEach kept m chain db committed) {r : Nat} (hr : r < m)
    (hne : db.stack ≠ []) : (db.commit r).stack.head? = db.stack.head? := by
  obtain ⟨e, rest, hs⟩ := List.exists_cons_of_ne_nil hne
  rw [h.contiguous.commit_stack r, h.revision, hs]
  have : ((m : Int) - r).toNat = (m - r - 1) + 1 := by omega
  rw [this, List.take_succ_cons]
  rfl

end OneStateEach

/-! ## Nodes -/

namespace Node

/-- No session open, one undo state for each block above the last committed one. -/
structure Clean (kept : List BlockId) (n : Node Name Tx Rest) : Prop where
  states : OneStateEach kept n.headBlockNum n.objects.applied n.db n.committed
  idNum : n.headBlockId.num = n.headBlockNum

/-- A pending session open on `base`: its undo state is the newest one, over
the states of the blocks. -/
structure PendingOn (kept : List BlockId) (base : Objects Name Rest) (n : Node Name Tx Rest) :
    Prop where
  states : OneStateEach kept (n.headBlockNum + 1) (n.headBlockId :: n.objects.applied) n.db
    n.committed
  idNum : n.headBlockId.num = n.headBlockNum
  newest : n.db.stack.head? = some ((n.headBlockNum : Int) + 1, base)
  headId : n.headBlockId = base.headBlockId

/-- The discipline of revisions. -/
def Steady (kept : List BlockId) (n : Node Name Tx Rest) : Prop :=
  match n.pendingTxSession with
  | none => n.Clean kept
  | some base => n.PendingOn kept base

/-- No session open, and no pending one. -/
structure Idle (kept : List BlockId) (n : Node Name Tx Rest) : Prop where
  noPending : n.pendingTxSession = none
  clean : n.Clean kept

/-- Inside the session of the block `id` over height `m`. The undo state of
the session can be gone only after the head has moved. -/
structure InBlock (kept : List BlockId) (m : Nat) (id : BlockId) (chain : List BlockId)
    (n : Node Name Tx Rest) : Prop where
  noPending : n.pendingTxSession = none
  states : OneStateEach kept (m + 1) (id :: chain) n.db n.committed
  place : n.objects.At m chain ∧ n.db.stack ≠ [] ∨ n.objects.At (m + 1) (id :: chain)

variable {kept : List BlockId}

theorem steady_of_noPending {n : Node Name Tx Rest} (h : n.pendingTxSession = none) :
    n.Steady kept ↔ n.Clean kept := by
  unfold Steady
  rw [h]

theorem steady_of_pending {n : Node Name Tx Rest} {base : Objects Name Rest}
    (h : n.pendingTxSession = some base) : n.Steady kept ↔ n.PendingOn kept base := by
  unfold Steady
  rw [h]

theorem Idle.steady {n : Node Name Tx Rest} (h : n.Idle kept) : n.Steady kept :=
  (steady_of_noPending h.noPending).mpr h.clean

theorem Clean.at {n : Node Name Tx Rest} (h : n.Clean kept) :
    n.objects.At n.headBlockNum n.objects.applied := ⟨rfl, h.idNum, rfl⟩

theorem Clean.of_at {n : Node Name Tx Rest} {m : Nat} {chain : List BlockId}
    (hs : OneStateEach kept m chain n.db n.committed) (hh : n.objects.At m chain) :
    n.Clean kept := by
  obtain ⟨h1, h2, h3⟩ := hh
  have hnum : n.headBlockNum = m := h1
  refine ⟨?_, ?_⟩
  · rw [hnum, h3]
    exact hs
  · rw [hnum]
    exact h2

theorem Clean.congr {n n' : Node Name Tx Rest} (h : n.Clean kept) (hs : SameDb n n') :
    n'.Clean kept := by
  have ho : n'.objects = n.objects := congrArg SnapshotStack.cur hs.db
  refine ⟨?_, ?_⟩
  · simpa only [headBlockNum, ho, hs.db, hs.committed] using h.states
  · simpa only [headBlockNum, headBlockId, ho] using h.idNum

theorem Idle.congr {n n' : Node Name Tx Rest} (h : n.Idle kept) (hs : SameDb n n') :
    n'.Idle kept :=
  ⟨hs.pendingTxSession.trans h.noPending, h.clean.congr hs⟩

theorem PendingOn.congr {base : Objects Name Rest} {n n' : Node Name Tx Rest}
    (h : n.PendingOn kept base) (hs : SameDb n n') : n'.PendingOn kept base := by
  have ho : n'.objects = n.objects := congrArg SnapshotStack.cur hs.db
  refine ⟨?_, ?_, ?_, ?_⟩
  · simpa only [headBlockNum, headBlockId, ho, hs.db, hs.committed] using h.states
  · simpa only [headBlockNum, headBlockId, ho] using h.idNum
  · simpa only [headBlockNum, ho, hs.db] using h.newest
  · simpa only [headBlockId, ho] using h.headId

theorem Steady.congr {n n' : Node Name Tx Rest} (h : n.Steady kept) (hs : SameDb n n') :
    n'.Steady kept := by
  cases hp : n.pendingTxSession with
  | none =>
      rw [steady_of_noPending hp] at h
      exact (steady_of_noPending (hs.pendingTxSession.trans hp)).mpr (h.congr hs)
  | some base =>
      rw [steady_of_pending hp] at h
      exact (steady_of_pending (hs.pendingTxSession.trans hp)).mpr (h.congr hs)

/-! ### Sessions -/

theorem Idle.openBlock {n : Node Name Tx Rest} (h : n.Idle kept) (id : BlockId) :
    InBlock kept n.headBlockNum id n.objects.applied { n with db := n.db.startUndoSession } :=
  ⟨h.noPending, h.clean.states.startUndoSession h.clean.at id,
    Or.inl ⟨h.clean.at, by simp⟩⟩

/-- The end of a block's session, when an exception passes it. -/
theorem InBlock.undo {m : Nat} {id : BlockId} {chain : List BlockId} {n : Node Name Tx Rest}
    (hn : InBlock kept m id chain n) : n.undo.Idle kept := by
  refine ⟨hn.noPending, ?_⟩
  by_cases hne : n.db.stack = []
  · -- Nothing is undone; the head had moved before the state could go.
    have hh : n.objects.At (m + 1) (id :: chain) := hn.place.resolve_left fun hc => hc.2 hne
    exact (Clean.of_at hn.states hh).congr ⟨SnapshotStack.undo_of_nil hne, rfl, rfl, rfl⟩
  · obtain ⟨hs, hh⟩ := hn.states.undo hne
    exact Clean.of_at hs hh

/-- What an undo takes back is the head block. -/
theorem Clean.undo_of_ne_nil {n : Node Name Tx Rest} (h : n.Clean kept) (hne : n.db.stack ≠ []) :
    ∃ m id chain, n.headBlockNum = m + 1 ∧ n.objects.applied = id :: chain ∧
      OneStateEach kept m chain n.undo.db n.undo.committed ∧ n.undo.objects.At m chain := by
  obtain ⟨e, rest, hs⟩ := List.exists_cons_of_ne_nil hne
  have hstates := h.states
  have hl := hstates.ladder
  rw [hs] at hl
  -- A ladder with a state in it stands over at least one block.
  generalize n.headBlockNum = m at hl hstates ⊢
  generalize n.objects.applied = chain at hl hstates ⊢
  obtain _ | m := m
  · exact hl.elim
  obtain _ | ⟨id, chain⟩ := chain
  · exact hl.elim
  exact ⟨m, id, chain, rfl, rfl, hstates.undo hne⟩

theorem Idle.undo {n : Node Name Tx Rest} (h : n.Idle kept) : n.undo.Idle kept := by
  refine ⟨h.noPending, ?_⟩
  by_cases hne : n.db.stack = []
  · exact h.clean.congr ⟨SnapshotStack.undo_of_nil hne, rfl, rfl, rfl⟩
  · obtain ⟨m, id, chain, -, -, hs, hh⟩ := h.clean.undo_of_ne_nil hne
    exact Clean.of_at hs hh

theorem Idle.openPending {n : Node Name Tx Rest} (h : n.Idle kept) :
    PendingOn kept n.objects n.openPending := by
  refine ⟨h.clean.states.startUndoSession h.clean.at _, h.clean.idNum, ?_, rfl⟩
  simp only [Node.openPending, SnapshotStack.startUndoSession_stack, List.head?_cons]
  rw [h.clean.states.revision]
  rfl

theorem PendingOn.stack_ne_nil {base : Objects Name Rest} {n : Node Name Tx Rest}
    (h : n.PendingOn kept base) : n.db.stack ≠ [] := by
  intro hc
  have := h.newest
  simp [hc] at this

/-- Closing the pending session returns to the objects it was opened on. -/
theorem PendingOn.undo {base : Objects Name Rest} {n : Node Name Tx Rest}
    (h : n.PendingOn kept base) :
    n.db.undo.cur = base ∧ n.undo.headBlockNum = n.headBlockNum ∧ n.undo.Clean kept := by
  obtain ⟨hs, hh⟩ := h.states.undo h.stack_ne_nil
  obtain ⟨e, rest, he⟩ := List.exists_cons_of_ne_nil h.stack_ne_nil
  have hnew := h.newest
  rw [he, List.head?_cons, Option.some.injEq] at hnew
  refine ⟨?_, hh.num, Clean.of_at hs hh⟩
  rw [SnapshotStack.undo_of_cons he, hnew]

theorem Steady.resetPending {n : Node Name Tx Rest} (h : n.Steady kept) :
    n.resetPending.Idle kept := by
  unfold Node.resetPending
  cases hp : n.pendingTxSession with
  | none => exact ⟨hp, (steady_of_noPending hp).mp h⟩
  | some base =>
      rw [steady_of_pending hp] at h
      have hc := h.undo.2.2
      exact ⟨rfl, ⟨hc.states, hc.idNum⟩⟩

/-- A change of the objects that does not move the head. -/
theorem Steady.setObjects {n : Node Name Tx Rest} (h : n.Steady kept) {o : Objects Name Rest}
    (hn : o.headBlockNumber = n.headBlockNum) (hi : o.headBlockId = n.headBlockId)
    (ha : o.applied = n.objects.applied) : (n.setObjects o).Steady kept := by
  have hnum : (n.setObjects o).headBlockNum = n.headBlockNum := hn
  have hid : (n.setObjects o).headBlockId = n.headBlockId := hi
  have happ : (n.setObjects o).objects.applied = n.objects.applied := ha
  have hpend : (n.setObjects o).pendingTxSession = n.pendingTxSession := rfl
  cases hp : n.pendingTxSession with
  | none =>
      rw [steady_of_noPending hp] at h
      refine (steady_of_noPending (hpend.trans hp)).mpr ⟨?_, ?_⟩
      · rw [hnum, happ]
        exact h.states.set o
      · rw [hnum, hid]
        exact h.idNum
  | some base =>
      rw [steady_of_pending hp] at h
      refine (steady_of_pending (hpend.trans hp)).mpr ⟨?_, ?_, ?_, ?_⟩
      · rw [hnum, hid, happ]
        exact h.states.set o
      · rw [hnum, hid]
        exact h.idNum
      · rw [hnum]
        exact h.newest
      · rw [hid]
        exact h.headId

/-- Settling outside any block, as long as it does not reach above the head
under an open pending session. -/
theorem Steady.settle {m : Node Name Tx Rest} (h : m.Steady kept)
    (hle : m.pendingTxSession ≠ none → m.objects.lastIrreversibleBlockNum ≤ m.headBlockNum) :
    m.settleIrreversible.state.Steady kept := by
  have hset := settleIrreversible_settled m
  generalize m.settleIrreversible.state = s at hset
  have hnum : s.headBlockNum = m.headBlockNum := congrArg Objects.headBlockNumber hset.objects
  have hid : s.headBlockId = m.headBlockId := congrArg Objects.headBlockId hset.objects
  have happ : s.objects.applied = m.objects.applied := congrArg Objects.applied hset.objects
  cases hp : m.pendingTxSession with
  | none =>
      rw [steady_of_noPending hp] at h
      refine (steady_of_noPending (hset.pendingTxSession.trans hp)).mpr ⟨?_, ?_⟩
      · rw [hnum, happ, hset.db, hset.committed]
        exact h.states.commit _ _ rfl
      · rw [hnum, hid]
        exact h.idNum
  | some base =>
      rw [steady_of_pending hp] at h
      have hle := hle (by simp [hp])
      refine (steady_of_pending (hset.pendingTxSession.trans hp)).mpr ⟨?_, ?_, ?_, ?_⟩
      · rw [hnum, hid, happ, hset.db, hset.committed]
        exact h.states.commit _ _ (by omega)
      · rw [hnum, hid]
        exact h.idNum
      · rw [hnum, hset.db, h.states.head?_commit (by omega) h.stack_ne_nil]
        exact h.newest
      · rw [hid]
        exact h.headId

variable [DecidableEq Name]

/-! ### Blocks -/

/-- A block applied inside its session: at a normal end the head has moved
up and its undo state is one of the ladder. -/
theorem InBlock.applyBlock (ev : Evaluators Name Tx Rest) (b : SignedBlock Name Tx) {m : Nat}
    {chain : List BlockId} {n : Node Name Tx Rest} (hn : InBlock kept m b.id chain n)
    (hh : n.objects.At m chain) (hne : n.db.stack ≠ []) :
    (n.applyBlock ev b).Post (Idle kept) (InBlock kept m b.id chain) := by
  have hmoved : ∀ r, b.previous = n.headBlockId →
      ((n.objects.setRest r).advanceHead b).At (m + 1) (b.id :: chain) := by
    intro r hprev
    have hnum : b.blockNum = m + 1 := by
      rw [SignedBlock.blockNum, hprev]
      exact congrArg (· + 1) hh.idNum
    exact ⟨hnum, hnum, congrArg (b.id :: ·) hh.applied⟩
  have hsigned : ∀ r, b.previous = n.headBlockId →
      (((n.objects.setRest r).advanceHead b).updateSigningWitness b).At (m + 1)
        (b.id :: chain) := by
    intro r hprev
    obtain ⟨h1, h2, h3⟩ := hmoved r hprev
    exact ⟨by simpa using h1, by simpa using h2, by simpa using h3⟩
  have hin : ∀ o' : Objects Name Rest, o'.At (m + 1) (b.id :: chain) →
      InBlock kept m b.id chain ((n.noteContract ev b).setObjects o') :=
    fun o' ho' => ⟨hn.noPending, hn.states.set _, Or.inr ho'⟩
  refine applyBlock_post ?_ ?_ ?_ ?_
  · exact fun r =>
      ⟨hn.noPending, hn.states.set _, Or.inl ⟨⟨hh.num, hh.idNum, hh.applied⟩, hne⟩⟩
  · exact fun r hprev => hin _ (hmoved r hprev)
  · exact fun r hprev => hin _ (hsigned r hprev)
  · intro r lib s hprev _ _ hs
    have hplace : s.objects.At (m + 1) (b.id :: chain) := by
      rw [hs.objects]
      obtain ⟨h1, h2, h3⟩ := hsigned r hprev
      exact ⟨h1, h2, h3⟩
    have hstates : OneStateEach kept (m + 1) (b.id :: chain) s.db s.committed := by
      rw [hs.db, hs.committed]
      refine (hn.states.set _).commit _ _ ?_
      exact congrArg (min lib) (hsigned r hprev).num
    have hpend : s.pendingTxSession = none := hs.pendingTxSession.trans hn.noPending
    refine ⟨⟨hpend, hstates, Or.inr hplace⟩, fun r' => ⟨?_, ?_⟩⟩
    · exact ⟨hpend, hstates.set _, Or.inr ⟨hplace.num, hplace.idNum, hplace.applied⟩⟩
    · exact ⟨hpend, Clean.of_at (hstates.set _) ⟨hplace.num, hplace.idNum, hplace.applied⟩⟩

theorem applyInSession_idle (ev : Evaluators Name Tx Rest) (b : SignedBlock Name Tx)
    {n : Node Name Tx Rest} (h : n.Idle kept) :
    (n.applyInSession ev b).Post (Idle kept) (Idle kept) := by
  refine Result.Post.onError ((h.openBlock b.id).applyBlock ev b h.clean.at ?_) ?_
  · simp
  · exact fun s hs => hs.undo

omit [DecidableEq Name] in
theorem steady_keepsPending (kept : List BlockId) :
    KeepsPending (fun n : Node Name Tx Rest => n.Steady kept) where
  congr _ _ h hs _ := h.congr hs
  openPending n h hp :=
    (steady_of_pending rfl).mpr
      (Idle.openPending ⟨hp, (steady_of_noPending hp).mp h⟩)
  pendingState n h hp := by
    obtain ⟨base, hb⟩ := Option.ne_none_iff_exists'.mp hp
    rw [steady_of_pending hb] at h
    exact h.stack_ne_nil
  setRest _ _ h _ := h.setObjects rfl rfl rfl

/-- The discipline goes through every entry point but `confirm_block`. -/
theorem steady_keeps (ev : Evaluators Name Tx Rest) (kept : List BlockId) :
    Keeps ev (Steady kept) (Idle kept) where
  base :=
    { pending := steady_keepsPending kept
      noPending := fun _ h => h.noPending
      weaken := fun _ h => h.steady
      reset := fun _ h => h.resetPending }
  branch _ :=
    { noPending := fun _ h => h.noPending
      congr := fun _ _ h hs => h.congr hs
      undo := fun _ h _ => h.undo
      applyInSession := fun b _ h => applyInSession_idle ev b h }

/-! ### Confirmations -/

/-- The confirmation `b` would not make a number above the head irreversible
while a pending session is open. -/
def ConfirmKeepsSession (ev : Evaluators Name Tx Rest) (n : Node Name Tx Rest)
    (b : SignedBlock Name Tx) : Prop :=
  n.pendingTxSession ≠ none → n.objects.validateBlockHeader ev b = .ok () →
    ¬b.blockNum < n.objects.lastConfirmedBlockNum b.witness →
    ∀ lib, (n.objects.recordConfirmation b).newLastIrreversible ev = .ok lib →
      lib ≤ n.headBlockNum

theorem confirmBlock_steady (ev : Evaluators Name Tx Rest) (b : SignedBlock Name Tx)
    {n : Node Name Tx Rest} (h : n.Steady kept) (hb : n.ConfirmKeepsSession ev b) :
    (n.confirmBlock ev b).state.Steady kept := by
  rcases confirmBlock_cases ev b n with heq | ⟨hval, hstale, heq⟩
  · rw [heq]
    exact h
  · rcases heq with heq | ⟨lib, hlib, heq⟩
    · rw [heq]
      exact h.setObjects rfl rfl rfl
    · rw [heq]
      have hs : (n.setObjects { n.objects.recordConfirmation b with
          lastIrreversibleBlockNum := lib }).Steady kept := h.setObjects rfl rfl rfl
      exact hs.settle fun hp => hb hp hval hstale lib hlib

/-! ### Runs -/

/-- What each step of a run must meet for the discipline to hold. -/
def StepKeepsSession (ev : Evaluators Name Tx Rest) (n : Node Name Tx Rest) :
    Step Name Tx → Prop
  | .confirmBlock b => n.ConfirmKeepsSession ev b
  | _ => True

theorem step_steady (ev : Evaluators Name Tx Rest) (s : Step Name Tx) {n : Node Name Tx Rest}
    (h : n.Steady kept) (hs : n.StepKeepsSession ev s) : (n.step ev s).Steady kept := by
  refine (steady_keeps ev kept).step s h ?_
  rintro b rfl
  exact confirmBlock_steady ev b h hs

omit [DecidableEq Name] in
theorem Opened.steady {n : Node Name Tx Rest} (h : n.Opened) : n.Steady [] := by
  rw [steady_of_noPending h.pending]
  refine ⟨⟨h.revision, ?_, ?_, List.nil_suffix⟩, h.headId⟩
  · rw [h.stack]
    simp [Ladder]
  · rw [h.stack, h.committed]
    simp

theorem run_steady (ev : Evaluators Name Tx Rest) (steps : List (Step Name Tx))
    {n : Node Name Tx Rest} (h : n.Steady kept) (hs : Along ev (StepKeepsSession ev) n steps) :
    (n.run ev steps).Steady kept :=
  Lib.Along.keeps (fun _ s hm hc => step_steady ev s hm hc) h hs

/-- **Revision discipline.** Along every run from an opened node in which no
confirmation takes an open pending session's undo state: with no pending
session the revision is the head's number and there is one undo state for
each block above the last committed one; with one, resetting it returns to
the objects it was opened on, the head block's, and to that same shape. -/
theorem run_revision (ev : Evaluators Name Tx Rest) (n : Node Name Tx Rest) (hopen : n.Opened)
    (steps : List (Step Name Tx)) (hs : Along ev (StepKeepsSession ev) n steps) :
    ((n.run ev steps).pendingTxSession = none →
      OneStateEach [] (n.run ev steps).headBlockNum (n.run ev steps).objects.applied
        (n.run ev steps).db (n.run ev steps).committed) ∧
    (∀ base, (n.run ev steps).pendingTxSession = some base →
      base.headBlockId = (n.run ev steps).headBlockId ∧
      (n.run ev steps).resetPending.objects = base ∧
      OneStateEach [] (n.run ev steps).headBlockNum base.applied
        (n.run ev steps).resetPending.db (n.run ev steps).committed) := by
  have h := run_steady ev steps hopen.steady hs
  generalize n.run ev steps = m at h
  constructor
  · intro hp
    exact ((steady_of_noPending hp).mp h).states
  · intro base hp
    rw [steady_of_pending hp] at h
    obtain ⟨hcur, hnum, hclean⟩ := h.undo
    unfold Node.resetPending
    rw [hp]
    refine ⟨h.headId.symm, hcur, ?_⟩
    have hstates := hclean.states
    rw [hnum, show m.undo.objects = base from hcur] at hstates
    exact hstates

end Node

/-! ### One scheduled witness -/

/-- A single witness `0` produces every block; a transaction is a number and
`rest` is the list of those applied. -/
def soloWitness : Evaluators Nat Nat (List Nat) where
  hasWitness _ w := w = 0
  signingKey _ _ := 7
  signee _ := 7
  scheduledWitnesses _ := [0]
  prepare o _ := (o.rest, none)
  execute o b :=
    if b.transactions.any fun tx => o.rest.contains tx then (o.rest, some (.evaluation 1))
    else (o.rest ++ b.transactions, none)
  recordMissed o _ := (o.rest, none)
  finish o _ := (o.rest, none)
  applyTransaction o tx :=
    if o.rest.contains tx then (o.rest, some (.evaluation 1)) else (o.rest ++ [tx], none)
  isKnownTransaction r tx := r.contains tx
  packSize _ := 100
  blockSize _ := 100
  maximumBlockSize _ := 65536
  expiration _ := 4000000
  headerHash _ _ _ _ _ := 9

/-- The block `num` with hash `hash` on top of the block with hash `prev`. -/
def soloBlock (num prev hash : Nat) (txs : List Nat) : SignedBlock Nat Nat :=
  { previous := ⟨num - 1, prev⟩, timestamp := 3 * num, witness := 0, transactions := txs,
    hash := hash }

/-- A node opened at the block `num`, with `lib` irreversible. -/
def openedAt (num lib : Nat) (rest : List Nat) : Node Nat Nat (List Nat) where
  db :=
    { cur :=
        { headBlockNumber := num, headBlockId := ⟨num, 1⟩, time := 3 * num, currentAslot := num,
          lastIrreversibleBlockNum := lib, lastConfirmedBlockNum := fun _ => num,
          lastAslot := fun _ => num, applied := [], rest := rest }
      stack := []
      revision := num }
  forkDb := ForkDatabase.empty.startBlock (soloBlock num 0 1 [])
  blockLog := [soloBlock num 0 1 []]
  pendingTxSession := none
  pendingTx := []
  poppedTx := []
  committed := num

theorem openedAt_opened (num lib : Nat) (rest : List Nat) : (openedAt num lib rest).Opened :=
  ⟨rfl, rfl, rfl, rfl, rfl, rfl, rfl, rfl⟩

/-- A node opened at block 864000, where the witnesses' confirmations begin
to decide what is irreversible. -/
def soloNode : Node Nat Nat (List Nat) := openedAt 864000 864000 []

theorem soloNode_opened : soloNode.Opened := openedAt_opened _ _ _

/-- A transaction is pending when the witness of the next block confirms it.
The number above the head becomes irreversible and `commit` takes the
pending session's undo state. When the block arrives, without the
transaction, nothing is left to undo: the transaction's change stays, and
the revision is one ahead of the head. -/
theorem confirm_commits_pending :
    soloNode.Opened ∧
    (soloNode.run soloWitness [.pushTransaction 5, .confirmBlock (soloBlock 864001 1 2 []),
      .pushBlock (soloBlock 864001 1 2 [])]).pendingTxSession.isNone = true ∧
    (soloNode.run soloWitness [.pushTransaction 5, .confirmBlock (soloBlock 864001 1 2 []),
      .pushBlock (soloBlock 864001 1 2 [])]).headBlockNum = 864001 ∧
    (soloNode.run soloWitness [.pushTransaction 5, .confirmBlock (soloBlock 864001 1 2 []),
      .pushBlock (soloBlock 864001 1 2 [])]).db.revision = 864002 ∧
    (soloNode.run soloWitness [.pushTransaction 5, .confirmBlock (soloBlock 864001 1 2 []),
      .pushBlock (soloBlock 864001 1 2 [])]).objects.rest = [5] := by
  refine ⟨soloNode_opened, ?_, ?_, ?_, ?_⟩ <;> decide +kernel

/-- The same confirmation before the transaction does no harm. -/
theorem run_revision_solo :
    OneStateEach [] 864001 [⟨864001, 2⟩]
      (soloNode.run soloWitness [.confirmBlock (soloBlock 864001 1 2 []), .pushTransaction 5,
        .pushBlock (soloBlock 864001 1 2 [5])]).db
      (soloNode.run soloWitness [.confirmBlock (soloBlock 864001 1 2 []), .pushTransaction 5,
        .pushBlock (soloBlock 864001 1 2 [5])]).committed := by
  have h := (Node.run_revision soloWitness soloNode soloNode_opened
    [.confirmBlock (soloBlock 864001 1 2 []), .pushTransaction 5,
      .pushBlock (soloBlock 864001 1 2 [5])]
    ⟨fun hp => absurd rfl hp, trivial, trivial, trivial⟩).1
  have hnone : (soloNode.run soloWitness [.confirmBlock (soloBlock 864001 1 2 []),
      .pushTransaction 5, .pushBlock (soloBlock 864001 1 2 [5])]).pendingTxSession = none := by
    rw [← Option.isNone_iff_eq_none]
    decide +kernel
  have hhead : (soloNode.run soloWitness [.confirmBlock (soloBlock 864001 1 2 []),
      .pushTransaction 5, .pushBlock (soloBlock 864001 1 2 [5])]).headBlockNum = 864001 := by
    decide +kernel
  have happlied : (soloNode.run soloWitness [.confirmBlock (soloBlock 864001 1 2 []),
      .pushTransaction 5, .pushBlock (soloBlock 864001 1 2 [5])]).objects.applied =
      [⟨864001, 2⟩] := by
    decide +kernel
  exact happlied ▸ hhead ▸ h hnone

end Gamebank.Chain
