import Gamebank.Chain.Irreversibility

/-!
# What is irreversible stays

`last_irreversible_block_num` is an object like any other: undoing a state
brings its old value back, while `commit` and the block log are never
taken back. So the value observed between calls can fall, and it falls
exactly through an undo of a state in which it had risen: a pending session
with a confirmation in it that is reset, or a fork switch that pops a block
which raised it.

`KeepsIrreversible` says that a step makes no such undo. Along a run of
such steps the value only grows, and what was committed, or appended to
the log, stays in the chain.
-/

namespace Gamebank.Chain

open Gamebank.Lib

universe u v w

variable {Name : Type u} {Tx : Type v} {Rest : Type w} [DecidableEq Name]

/-! ## The next block -/

namespace Objects

/-- Nothing is above the number after the head, and before the witnesses
vote the last irreversible block trails the head. -/
structure Near (o : Objects Name Rest) : Prop where
  idNum : o.headBlockId.num = o.headBlockNumber
  irreversible : o.lastIrreversibleBlockNum ≤ o.headBlockNumber + 1
  confirmed : ∀ w, o.lastConfirmedBlockNum w ≤ o.headBlockNumber + 1
  early : o.headBlockNumber < startMinerVotingBlock →
    o.lastIrreversibleBlockNum ≤ o.headBlockNumber - maxWitnesses
  numbered : ∀ i id, o.applied[i]? = some id → id.num + i = o.headBlockNumber

omit [DecidableEq Name] in
/-- The value is never lowered by being computed anew. -/
theorem Near.le_newLastIrreversible {ev : Evaluators Name Tx Rest} {o : Objects Name Rest}
    (h : o.Near) {lib : Nat} (hlib : o.newLastIrreversible ev = .ok lib) :
    o.lastIrreversibleBlockNum ≤ lib := by
  unfold newLastIrreversible at hlib
  split at hlib
  · rename_i hearly
    have := h.early hearly
    simp only [Except.ok.injEq] at hlib
    subst hlib
    split <;> omega
  · split at hlib
    · simp at hlib
    · split at hlib
      · simp at hlib
      · simp only [Except.ok.injEq] at hlib
        omega

omit [DecidableEq Name] in
/-- Before the witnesses vote, the value trails the head. -/
theorem Near.newLastIrreversible_early {ev : Evaluators Name Tx Rest} {o : Objects Name Rest}
    (h : o.Near) {lib : Nat} (hlib : o.newLastIrreversible ev = .ok lib)
    (hearly : o.headBlockNumber < startMinerVotingBlock) :
    lib ≤ o.headBlockNumber - maxWitnesses := by
  have := h.early hearly
  unfold newLastIrreversible at hlib
  rw [if_pos hearly, Except.ok.injEq] at hlib
  subst hlib
  split <;> omega

omit [DecidableEq Name] in
theorem Near.newLastIrreversible_le_succ {ev : Evaluators Name Tx Rest} {o : Objects Name Rest}
    (h : o.Near) {lib : Nat} (hlib : o.newLastIrreversible ev = .ok lib) :
    lib ≤ o.headBlockNumber + 1 := by
  have hirr := h.irreversible
  unfold newLastIrreversible at hlib
  split at hlib
  · simp only [Except.ok.injEq] at hlib
    subst hlib
    split <;> omega
  · split at hlib
    · simp at hlib
    · split at hlib
      · simp at hlib
      · rename_i v hv
        obtain ⟨w, -, rfl⟩ := confirmedByQuorum_mem hv
        simp only [Except.ok.injEq] at hlib
        subst hlib
        have := h.confirmed w
        omega

omit [DecidableEq Name] in
theorem Near.setLastIrreversible {ev : Evaluators Name Tx Rest} {o : Objects Name Rest}
    (h : o.Near) {lib : Nat} (hlib : o.newLastIrreversible ev = .ok lib) :
    ({ o with lastIrreversibleBlockNum := lib } : Objects Name Rest).Near :=
  ⟨h.idNum, h.newLastIrreversible_le_succ hlib, h.confirmed,
    h.newLastIrreversible_early hlib, h.numbered⟩

omit [DecidableEq Name] in
/-- The number after the head is the head's once the block is there. -/
theorem Near.advanceHead {o : Objects Name Rest} (h : o.Near) {b : SignedBlock Name Tx}
    (hprev : b.previous = o.headBlockId) :
    (o.advanceHead b).Bounded ∧ (o.advanceHead b).Near := by
  have hnum : b.blockNum = o.headBlockNumber + 1 := by
    rw [SignedBlock.blockNum, hprev, h.idNum]
  have hirr : o.lastIrreversibleBlockNum ≤ b.blockNum := by
    rw [hnum]
    exact h.irreversible
  have hconf : ∀ w, o.lastConfirmedBlockNum w ≤ b.blockNum := by
    intro w
    rw [hnum]
    exact h.confirmed w
  refine ⟨⟨rfl, hirr, hconf⟩, ⟨rfl, Nat.le_succ_of_le hirr, fun w => Nat.le_succ_of_le (hconf w),
    ?_, ?_⟩⟩
  · intro hearly
    have hearly : b.blockNum < startMinerVotingBlock := hearly
    show o.lastIrreversibleBlockNum ≤ b.blockNum - maxWitnesses
    have := h.early (by omega)
    omega
  · intro i id hi
    show id.num + i = b.blockNum
    cases i with
    | zero =>
        have hi : some b.id = some id := hi
        simp only [Option.some.injEq] at hi
        subst hi
        rfl
    | succ i =>
        have := h.numbered i id hi
        omega

theorem Near.recordConfirmation {o : Objects Name Rest} (h : o.Near) {b : SignedBlock Name Tx}
    (hnum : b.blockNum ≤ o.headBlockNumber + 1) : (o.recordConfirmation b).Near := by
  refine ⟨h.idNum, h.irreversible, fun w => ?_, h.early, h.numbered⟩
  simp only [Objects.recordConfirmation]
  split
  · exact hnum
  · exact h.confirmed w

theorem Near.updateSigningWitness {o : Objects Name Rest} (h : o.Near) {b : SignedBlock Name Tx}
    (hnum : b.blockNum ≤ o.headBlockNumber + 1) : (o.updateSigningWitness b).Near := by
  unfold Objects.updateSigningWitness
  split
  · exact h
  · exact h.recordConfirmation hnum

theorem near_closed (ev : Evaluators Name Tx Rest) : ClosedUnderBlocks ev Near where
  rest _ _ h := ⟨h.idNum, h.irreversible, h.confirmed, h.early, h.numbered⟩
  advance _ _ h hprev := (h.advanceHead hprev).2
  sign _ _ h hprev := (h.advanceHead hprev).2.updateSigningWitness (Nat.le_succ _)
  irreversible _ _ h hlib := h.setLastIrreversible hlib

end Objects

/-! ## Down to a fork -/

/-- In the states, newest first, down to the one whose head is `fork`, the
last irreversible block is at least `L`. -/
def AboveFrom (fork : BlockId) (L : Nat) : List (Objects Name Rest) → Prop
  | [] => True
  | o :: rest => L ≤ o.lastIrreversibleBlockNum ∧ (o.headBlockId = fork ∨ AboveFrom fork L rest)

omit [DecidableEq Name] in
theorem AboveFrom.of_prefix {fork : BlockId} {L : Nat} {l l' : List (Objects Name Rest)}
    (h : AboveFrom fork L l') (hp : l <+: l') : AboveFrom fork L l := by
  induction l generalizing l' with
  | nil => trivial
  | cons o rest ih =>
      obtain ⟨_, rfl⟩ := hp
      exact ⟨h.1, h.2.imp (fun hf => hf) fun hr => ih hr ⟨_, rfl⟩⟩

omit [DecidableEq Name] in
/-- One undo, while the fork is not reached. -/
theorem AboveFrom.undo {fork : BlockId} {L : Nat} {db : SnapshotStack (Objects Name Rest)}
    (h : AboveFrom fork L db.states) (hne : db.cur.headBlockId ≠ fork) :
    AboveFrom fork L db.undo.states := by
  rcases db.states_undo with heq | heq
  · rw [heq]
    exact h.2.resolve_left hne
  · rw [heq]
    exact h

namespace Node

/-- What runs keep, measured against a value `L` of the last irreversible
block: it has been reached, all states are near, what is irreversible in
them and in the chain is committed, and so is what is logged above `L`. -/
structure Finality (L : Nat) (n : Node Name Tx Rest) : Prop where
  near : n.db.AllStates Objects.Near
  reached : L ≤ n.objects.lastIrreversibleBlockNum
  committed : n.db.AllStates fun o =>
    min o.lastIrreversibleBlockNum o.headBlockNumber ≤ n.committed
  logged : ∀ b ∈ n.blockLog, b.blockNum ≤ max n.committed L

variable {L : Nat}

omit [DecidableEq Name] in
theorem Finality.congr {n n' : Node Name Tx Rest} (h : n.Finality L) (hs : SameDb n n') :
    n'.Finality L := by
  obtain ⟨h1, h2, h3, h4⟩ := h
  refine ⟨?_, ?_, ?_, ?_⟩
  · rw [hs.db]
    exact h1
  · rw [Node.objects, hs.db]
    exact h2
  · rw [hs.db, hs.committed]
    exact h3
  · rw [hs.blockLog, hs.committed]
    exact h4

omit [DecidableEq Name] in
/-- An undo that does not go below `L`. -/
theorem Finality.undo {n : Node Name Tx Rest} (h : n.Finality L)
    (hL : L ≤ n.undo.objects.lastIrreversibleBlockNum) : n.undo.Finality L :=
  ⟨h.near.undo, hL, h.committed.undo, h.logged⟩

/-- The states down to `fork` have what `Finality` says of them. -/
structure Down (fork : BlockId) (L committed : Nat) (l : List (Objects Name Rest)) : Prop where
  above : AboveFrom fork L l
  committed : ∀ o ∈ l, min o.lastIrreversibleBlockNum o.headBlockNumber ≤ committed

omit [DecidableEq Name] in
theorem Down.of_prefix {fork : BlockId} {c c' : Nat} {l l' : List (Objects Name Rest)}
    (h : Down fork L c l') (hp : l <+: l') (hc : c ≤ c') : Down fork L c' l :=
  ⟨h.above.of_prefix hp, fun o ho => (h.committed o (hp.subset ho)).trans hc⟩

omit [DecidableEq Name] in
theorem Down.cons {fork : BlockId} {c : Nat} {l : List (Objects Name Rest)} {o : Objects Name Rest}
    (h : Down fork L c l) (hL : L ≤ o.lastIrreversibleBlockNum)
    (hc : min o.lastIrreversibleBlockNum o.headBlockNumber ≤ c) : Down fork L c (o :: l) :=
  ⟨⟨hL, Or.inr h.above⟩, List.forall_mem_cons.mpr ⟨hc, h.committed⟩⟩

/-- A block, applied or failed, goes on from a state that is near to one
where what is irreversible is committed, and does not fall below `L` down to
the fork. -/
theorem applyInSession_down (ev : Evaluators Name Tx Rest) (fork : BlockId)
    (b : SignedBlock Name Tx) {n : Node Name Tx Rest} (hnear : n.objects.Near)
    (hdown : Down fork L n.committed n.db.states)
    (hlog : ∀ b ∈ n.blockLog, b.blockNum ≤ max n.committed L) :
    (n.applyInSession ev b).Post
      (fun m => Down fork L m.committed m.db.states ∧
        ∀ b ∈ m.blockLog, b.blockNum ≤ max m.committed L)
      (fun m => Down fork L m.committed m.db.states ∧
        ∀ b ∈ m.blockLog, b.blockNum ≤ max m.committed L) := by
  refine Result.Post.onError (E := fun m => Down fork L m.committed m.db.undo.states ∧
    ∀ b ∈ m.blockLog, b.blockNum ≤ max m.committed L) ?_ fun s hs => hs
  -- Before the new value is written, the session's end brings `n` back.
  have hstop : ∀ o : Objects Name Rest, Down fork L n.committed
      (n.db.startUndoSession.set o).undo.states := by
    intro o
    rw [SnapshotStack.undo_set_startUndoSession]
    exact hdown
  refine applyBlock_post (fun r => ⟨hstop _, hlog⟩) (fun r _ => ⟨hstop _, hlog⟩)
    (fun r _ => ⟨hstop _, hlog⟩) ?_
  intro r lib s hprev _ hlib hs
  have hprev : b.previous = n.objects.headBlockId := hprev
  have hnear' : (n.objects.setRest r).Near := (Objects.near_closed ev).rest _ r hnear
  obtain ⟨hbounded, hmoved⟩ := hnear'.advanceHead (b := b) hprev
  have hsigned := hmoved.updateSigningWitness (b := b) (Nat.le_succ _)
  have hle : lib ≤ b.blockNum := by
    have := Objects.newLastIrreversible_le (hbounded.updateSigningWitness (b := b) rfl) hlib
    rw [Objects.updateSigningWitness_headBlockNumber] at this
    exact this
  have hge : L ≤ lib := by
    have := hsigned.le_newLastIrreversible hlib
    rw [Objects.updateSigningWitness_lastIrreversibleBlockNum] at this
    exact hdown.above.1.trans this
  have hcommitted : s.committed = max n.committed lib := by
    rw [hs.committed, headBlockNum]
    show max n.committed (min lib
      (((n.objects.setRest r).advanceHead b).updateSigningWitness b).headBlockNumber) = _
    rw [Objects.updateSigningWitness_headBlockNumber]
    exact congrArg (max n.committed) (Nat.min_eq_left hle)
  have hlogged : ∀ b ∈ s.blockLog, b.blockNum ≤ max s.committed L := by
    obtain ⟨log, hlog', hnew⟩ := hs.blockLog
    intro c hc
    rw [hlog', List.mem_append] at hc
    rcases hc with hc | hc
    · have := hlog c hc
      omega
    · have : c.blockNum ≤ lib := hnew c hc
      omega
  -- The states after the commit, with any `rest` in the newest one.
  have hstates : ∀ o : Objects Name Rest, o.lastIrreversibleBlockNum = lib →
      Down fork L s.committed ((n.db.startUndoSession.set o).commit lib).states ∧
      Down fork L s.committed ((n.db.startUndoSession.set o).commit lib).undo.states := by
    intro o ho
    have hnew : Down fork L s.committed [o] := by
      refine Down.cons ⟨trivial, by simp⟩ (ho ▸ hge) ?_
      omega
    have hall : Down fork L s.committed (n.db.startUndoSession.set o).states := by
      rw [SnapshotStack.states_startUndoSession_set]
      exact (hdown.of_prefix List.prefix_rfl (by omega)).cons (ho ▸ hge) (by omega)
    refine ⟨hall.of_prefix (SnapshotStack.states_commit _ _) (Nat.le_refl _), ?_⟩
    rcases SnapshotStack.states_undo_commit n.db o lib with hpre | heq
    · exact hdown.of_prefix hpre (by omega)
    · rw [heq]
      exact hnew
  have hend : ∀ r', Down fork L s.committed (s.setObjects (s.objects.setRest r')).db.states ∧
      Down fork L s.committed (s.setObjects (s.objects.setRest r')).db.undo.states := by
    intro r'
    have hobj := hs.objects
    simp only [setObjects]
    rw [hs.db, hobj]
    exact hstates _ rfl
  have hself : s.setObjects (s.objects.setRest s.objects.rest) = s := rfl
  exact ⟨⟨hself ▸ (hend s.objects.rest).2, hlogged⟩, fun r' =>
    ⟨⟨(hend r').2, hlogged⟩, ⟨(hend r').1, hlogged⟩⟩⟩

variable {kept : List BlockId}

/-- `Finality` inside `push_block`, above a fork. -/
theorem finality_keepsBranch (ev : Evaluators Name Tx Rest) (fork : BlockId)
    (kept : List BlockId) (L : Nat) :
    KeepsBranch ev fork fun n =>
      (n.Idle kept ∧ n.Finality L) ∧ AboveFrom fork L n.db.states where
  noPending _ h := h.1.1.noPending
  congr n n' h hs := by
    refine ⟨⟨h.1.1.congr hs, h.1.2.congr hs⟩, ?_⟩
    rw [hs.db]
    exact h.2
  undo n h hne := by
    have habove := h.2.undo hne
    exact ⟨⟨h.1.1.undo, h.1.2.undo habove.1⟩, habove⟩
  applyInSession b n h := by
    obtain ⟨⟨hidle, hfin⟩, habove⟩ := h
    have hpost := ((applyInSession_idle ev b hidle).and
      (applyInSession_allStates (Objects.near_closed ev) b hfin.near)).and
      (applyInSession_down ev fork b hfin.near.1
        ⟨habove, SnapshotStack.allStates_iff.mp hfin.committed⟩ hfin.logged)
    have hend : ∀ m : Node Name Tx Rest, (m.Idle kept ∧ m.db.AllStates Objects.Near) ∧
        Down fork L m.committed m.db.states ∧
        (∀ b ∈ m.blockLog, b.blockNum ≤ max m.committed L) →
        (m.Idle kept ∧ m.Finality L) ∧ AboveFrom fork L m.db.states := by
      rintro m ⟨⟨hidle, hnear⟩, hdown, hlog⟩
      exact ⟨⟨hidle, hnear, hdown.above.1, SnapshotStack.allStates_iff.mpr hdown.committed, hlog⟩,
        hdown.above⟩
    exact hpost.imp hend hend

/-- The invariant between calls: the pending session was opened where at
least `Lb` was irreversible. -/
structure Final (kept : List BlockId) (L Lb : Nat) (n : Node Name Tx Rest) : Prop where
  steady : n.Steady kept
  finality : n.Finality L
  base : ∀ o, n.pendingTxSession = some o → Lb ≤ o.lastIrreversibleBlockNum

omit [DecidableEq Name] in
theorem final_keepsPending (kept : List BlockId) {L Lb : Nat} (hLb : Lb ≤ L) :
    KeepsPending fun n : Node Name Tx Rest => n.Final kept L Lb where
  congr n n' h hs _ := by
    refine ⟨h.steady.congr hs, h.finality.congr hs, ?_⟩
    rw [hs.pendingTxSession]
    exact h.base
  openPending n h hp := by
    refine ⟨(steady_keepsPending kept).openPending n h.steady hp, ?_, ?_⟩
    · exact ⟨h.finality.near.startUndoSession, h.finality.reached,
        h.finality.committed.startUndoSession, h.finality.logged⟩
    · intro o ho
      have : n.objects = o := by simpa [Node.openPending] using ho
      subst this
      exact hLb.trans h.finality.reached
  pendingState n h hp := (steady_keepsPending kept).pendingState n h.steady hp
  setRest n r h hp := by
    refine ⟨(steady_keepsPending kept).setRest n r h.steady hp, ?_, h.base⟩
    have hnear := h.finality.near.1
    exact ⟨h.finality.near.set
        ⟨hnear.idNum, hnear.irreversible, hnear.confirmed, hnear.early, hnear.numbered⟩,
      h.finality.reached, h.finality.committed.set h.finality.committed.1, h.finality.logged⟩

omit [DecidableEq Name] in
theorem final_keepsReset (kept : List BlockId) (L : Nat) :
    KeepsReset (fun n : Node Name Tx Rest => n.Final kept L L)
      (fun n => n.Idle kept ∧ n.Finality L) where
  pending := final_keepsPending kept (Nat.le_refl L)
  noPending _ h := h.1.noPending
  weaken n h := by
    refine ⟨h.1.steady, h.2, fun o ho => ?_⟩
    rw [h.1.noPending] at ho
    simp at ho
  reset n h := by
    refine ⟨h.steady.resetPending, ?_⟩
    unfold Node.resetPending
    cases hp : n.pendingTxSession with
    | none => exact h.finality
    | some o =>
        have hundo : n.undo.Finality L := by
          refine h.finality.undo ?_
          have hcur := ((steady_of_pending hp).mp h.steady).undo.1
          show L ≤ n.db.undo.cur.lastIrreversibleBlockNum
          rw [hcur]
          exact h.base o hp
        exact ⟨hundo.near, hundo.reached, hundo.committed, hundo.logged⟩

/-! ## Steps -/

/-- If `b` makes the node switch forks, the last irreversible block of every
state down to the fork point is the current one: no block that is popped
had raised it. -/
def SwitchKeepsIrreversible (n : Node Name Tx Rest) (b : SignedBlock Name Tx) : Prop :=
  ∀ f newHead first second last, n.forkDb.pushBlock b = .ok f → f.head = some newHead →
    newHead.previousId ≠ n.headBlockId → n.headBlockNum < newHead.num →
    f.fetchBranchFrom newHead.id n.headBlockId = .ok (first, second) →
    second.getLast? = some last →
    AboveFrom last.previousId n.objects.lastIrreversibleBlockNum n.db.states

omit [DecidableEq Name] in
/-- A block on top of the head makes no switch. -/
theorem switchKeepsIrreversible_of_extends {n : Node Name Tx Rest} {b : SignedBlock Name Tx}
    (h : ((n.forkDb.pushBlock b).toOption.bind ForkDatabase.head).map ForkItem.previousId =
      some n.headBlockId) : n.SwitchKeepsIrreversible b := by
  intro f newHead first second last hf hhead hprev
  rw [hf] at h
  simp only [Except.toOption, Option.bind_some, hhead, Option.map_some, Option.some.injEq] at h
  exact absurd h hprev

/-- No undo of this step lowers the last irreversible block: neither that of
the pending session nor those of a fork switch. For a confirmation it is
that the pending session is not committed. `pop_block`, which undoes
whatever the head is, is not one of the steps. -/
def KeepsIrreversible (ev : Evaluators Name Tx Rest) (n : Node Name Tx Rest) :
    Step Name Tx → Prop
  | .pushBlock b =>
      n.objects.lastIrreversibleBlockNum ≤ n.resetPending.objects.lastIrreversibleBlockNum ∧
        n.clearPending.SwitchKeepsIrreversible b
  | .generateBlock headerSize time owner key =>
      n.objects.lastIrreversibleBlockNum ≤ n.resetPending.objects.lastIrreversibleBlockNum ∧
        (n.assembleBlock ev headerSize time owner key).1.clearPending.SwitchKeepsIrreversible
          (n.assembleBlock ev headerSize time owner key).2
  | .confirmBlock b => n.ConfirmKeepsSession ev b
  | .pushTransaction _ => True
  | .popBlock => False

omit [DecidableEq Name] in
theorem AboveFrom.mono {fork : BlockId} {L L' : Nat} {l : List (Objects Name Rest)}
    (h : AboveFrom fork L' l) (hL : L ≤ L') : AboveFrom fork L l := by
  induction l with
  | nil => trivial
  | cons o rest ih => exact ⟨hL.trans h.1, h.2.imp (fun hf => hf) fun hr => ih hr⟩

omit [DecidableEq Name] in
/-- The session was opened where the value already was what it is now. -/
theorem Final.of_reset {n : Node Name Tx Rest} (h : n.Final kept L 0)
    (hreset : L ≤ n.resetPending.objects.lastIrreversibleBlockNum) : n.Final kept L L := by
  refine ⟨h.steady, h.finality, fun o ho => ?_⟩
  have hcur := ((steady_of_pending ho).mp h.steady).undo.1
  unfold Node.resetPending at hreset
  rw [ho] at hreset
  rw [← hcur]
  exact hreset

theorem pushBlockInner_finality (ev : Evaluators Name Tx Rest) (b : SignedBlock Name Tx)
    {n : Node Name Tx Rest} (h : n.Idle kept ∧ n.Finality L)
    (hswitch : n.SwitchKeepsIrreversible b) :
    (n.pushBlockInner ev b).Post (fun m => m.Idle kept ∧ m.Finality L)
      (fun m => m.Idle kept ∧ m.Finality L) := by
  have hcongr : ∀ m m' : Node Name Tx Rest, (m.Idle kept ∧ m.Finality L) → SameDb m m' →
      m'.Idle kept ∧ m'.Finality L := fun m m' hm hs => ⟨hm.1.congr hs, hm.2.congr hs⟩
  refine pushBlockInner_post (fun n' hs => hcongr _ _ h hs) ?_ hcongr ?_
  · intro n' hs
    have h' := hcongr _ _ h hs
    -- No fork is involved; the head itself serves as one.
    have hpost := (finality_keepsBranch ev n'.headBlockId kept L).applyInSession b n'
      ⟨h', h'.2.reached, Or.inl rfl⟩
    exact hpost.imp (fun _ hm => hm.1) fun _ hm => hm.1
  · intro f newHead first second last hf hhead hprev hnum hbranch hlast
    have habove := hswitch f newHead first second last hf hhead hprev hnum hbranch hlast
    exact ⟨_, finality_keepsBranch ev last.previousId kept L,
      ⟨hcongr _ _ h ⟨rfl, rfl, rfl, rfl⟩, AboveFrom.mono habove h.2.reached⟩, fun _ hm => hm.1⟩

omit [DecidableEq Name] in
/-- The value reached is one to measure against. -/
theorem Finality.raise {n : Node Name Tx Rest} (h : n.Finality L) :
    n.Finality n.objects.lastIrreversibleBlockNum := by
  refine ⟨h.near, Nat.le_refl _, h.committed, fun b hb => ?_⟩
  have hle := h.logged b hb
  have hreached := h.reached
  omega

theorem confirmBlock_finality (ev : Evaluators Name Tx Rest) (b : SignedBlock Name Tx)
    {n : Node Name Tx Rest} (h : n.Finality L) :
    ∃ L', L ≤ L' ∧ (n.confirmBlock ev b).state.Finality L' := by
  have hnear := h.near.1
  rcases confirmBlock_cases ev b n with heq | ⟨hval, -, heq⟩
  · rw [heq]
    exact ⟨L, Nat.le_refl L, h⟩
  · have hnum : b.blockNum = n.objects.headBlockNumber + 1 := by
      rw [SignedBlock.blockNum, Objects.previous_of_validateBlockHeader hval]
      exact congrArg (· + 1) hnear.idNum
    have hrec : (n.objects.recordConfirmation b).Near :=
      hnear.recordConfirmation (Nat.le_of_eq hnum)
    rcases heq with heq | ⟨lib, hlib, heq⟩
    · rw [heq]
      exact ⟨L, Nat.le_refl L, h.near.set hrec, h.reached, h.committed.set h.committed.1,
        h.logged⟩
    · rw [heq]
      have hs := settleIrreversible_settled (n.setObjects { n.objects.recordConfirmation b with
        lastIrreversibleBlockNum := lib })
      generalize (n.setObjects { n.objects.recordConfirmation b with
        lastIrreversibleBlockNum := lib }).settleIrreversible.state = s at hs
      have hge : L ≤ lib := h.reached.trans (hrec.le_newLastIrreversible hlib)
      have hmono : n.committed ≤ s.committed := by
        rw [hs.committed]
        exact Nat.le_max_left _ _
      have hcur : min lib n.objects.headBlockNumber ≤ s.committed := by
        rw [hs.committed]
        exact Nat.le_max_right _ _
      refine ⟨lib, hge, ?_, ?_, ?_, ?_⟩
      · rw [hs.db]
        exact (h.near.set (hrec.setLastIrreversible hlib)).commit _
      · rw [hs.objects]
        exact Nat.le_refl lib
      · rw [hs.db]
        exact ((h.committed.imp fun o ho => ho.trans hmono).set hcur).commit _
      · obtain ⟨log, hlog, hnew⟩ := hs.blockLog
        intro c hc
        rw [hlog, List.mem_append] at hc
        rcases hc with hc | hc
        · have hle := h.logged c hc
          omega
        · have hle : c.blockNum ≤ lib := hnew c hc
          omega

/-- One step of a run: the last irreversible block does not fall. -/
theorem step_final (ev : Evaluators Name Tx Rest) (s : Step Name Tx) {n : Node Name Tx Rest}
    (h : n.Steady kept) (hfin : n.Finality L) (hs : n.KeepsIrreversible ev s) :
    (n.step ev s).Steady kept ∧ ∃ L', n.objects.lastIrreversibleBlockNum ≤ L' ∧
      (n.step ev s).Finality L' := by
  have hpend : n.Final kept n.objects.lastIrreversibleBlockNum 0 :=
    ⟨h, hfin.raise, fun _ _ => Nat.zero_le _⟩
  have hk : KeepsReset (fun m : Node Name Tx Rest => m.Final kept _ _) _ :=
    final_keepsReset kept n.objects.lastIrreversibleBlockNum
  cases s with
  | pushBlock b =>
      have hI := hpend.of_reset hs.1
      have hpost := hk.pushBlock b (pushBlockInner_finality ev b (hk.clearPending hI) hs.2)
      have hend := Result.post_state.mp hpost
      exact ⟨hend.steady, _, Nat.le_refl _, hend.finality⟩
  | pushTransaction tx =>
      have hpost := (final_keepsPending kept (Nat.zero_le _)).pushTransaction ev tx hpend
      have hend := Result.post_state.mp hpost
      exact ⟨hend.steady, _, Nat.le_refl _, hend.finality⟩
  | generateBlock headerSize time owner key =>
      have hI := hpend.of_reset hs.1
      have hpost : (n.generateBlock ev headerSize time owner key).Post _ _ :=
        hk.generateBlock headerSize time owner key hI fun hJ =>
          hk.pushBlock _ (pushBlockInner_finality ev _ (hk.clearPending (hk.weaken _ hJ)) hs.2)
      have hend := Result.post_state.mp hpost
      exact ⟨hend.steady, _, Nat.le_refl _, hend.finality⟩
  | popBlock => exact hs.elim
  | confirmBlock b => exact ⟨confirmBlock_steady ev b h hs, confirmBlock_finality ev b hfin.raise⟩

/-! ## Runs -/

theorem run_final (ev : Evaluators Name Tx Rest) (steps : List (Step Name Tx))
    {n : Node Name Tx Rest} (h : n.Steady kept) (hfin : n.Finality L)
    (hs : Along ev (KeepsIrreversible ev) n steps) :
    (n.run ev steps).Steady kept ∧ ∃ L', L ≤ L' ∧ (n.run ev steps).Finality L' := by
  induction steps generalizing n L with
  | nil => exact ⟨h, L, Nat.le_refl L, hfin⟩
  | cons s rest ih =>
      obtain ⟨h', L', hL, hfin'⟩ := step_final ev s h hfin hs.1
      obtain ⟨h'', L'', hL', hfin''⟩ := ih h' hfin' hs.2
      exact ⟨h'', L'', (hfin.reached.trans hL).trans hL', hfin''⟩

omit [DecidableEq Name] in
/-- The pending session's own state is above every committed one. -/
theorem PendingOn.drop_chain {base : Objects Name Rest} {n : Node Name Tx Rest}
    (h : n.PendingOn kept base) :
    (n.headBlockId :: n.objects.applied).drop (n.headBlockNum + 1 - n.committed) =
      n.objects.applied.drop (n.headBlockNum - n.committed) := by
  have hlen := h.states.length
  have hpos : 0 < n.db.stack.length := List.length_pos_of_ne_nil h.stack_ne_nil
  have hdrop : n.headBlockNum + 1 - n.committed = (n.headBlockNum - n.committed) + 1 := by omega
  rw [hdrop, List.drop_succ_cons]

omit [DecidableEq Name] in
/-- What a steady node keeps is part of its chain. -/
theorem Steady.kept_suffix {n : Node Name Tx Rest} (h : n.Steady kept) :
    kept <:+ n.objects.applied := by
  cases hp : n.pendingTxSession with
  | none =>
      rw [steady_of_noPending hp] at h
      exact h.states.extends_kept.trans (List.drop_suffix _ _)
  | some base =>
      rw [steady_of_pending hp] at h
      have hkept := h.states.extends_kept
      rw [h.drop_chain] at hkept
      exact hkept.trans (List.drop_suffix _ _)

omit [DecidableEq Name] in
/-- The chain up to the last committed block can be what is kept from now on. -/
theorem Steady.keep_committed {n : Node Name Tx Rest} (h : n.Steady kept) :
    n.Steady (n.objects.applied.drop (n.headBlockNum - n.committed)) := by
  cases hp : n.pendingTxSession with
  | none =>
      rw [steady_of_noPending hp] at h
      refine (steady_of_noPending hp).mpr ⟨?_, h.idNum⟩
      exact ⟨h.states.revision, h.states.ladder, h.states.length, List.suffix_rfl⟩
  | some base =>
      rw [steady_of_pending hp] at h
      refine (steady_of_pending hp).mpr ⟨?_, h.idNum, h.newest, h.headId⟩
      exact ⟨h.states.revision, h.states.ladder, h.states.length,
        h.drop_chain.symm ▸ List.suffix_rfl⟩

omit [DecidableEq Name] in
/-- A block of the chain that is in the log is committed. -/
theorem Finality.committed_of_logged {n : Node Name Tx Rest} (h : n.Finality L)
    {b : SignedBlock Name Tx} (hlog : b ∈ n.blockLog) (hb : b.id ∈ n.objects.applied) :
    b.id ∈ n.objects.applied.drop (n.headBlockNum - n.committed) := by
  obtain ⟨i, hi⟩ := List.mem_iff_getElem?.mp hb
  have hnum : b.blockNum + i = n.headBlockNum := h.near.1.numbered i b.id hi
  have hcommitted : min n.objects.lastIrreversibleBlockNum n.headBlockNum ≤ n.committed :=
    h.committed.1
  have hle := h.logged b hlog
  have hreached := h.reached
  refine List.mem_iff_getElem?.mpr ⟨i - (n.headBlockNum - n.committed), ?_⟩
  rw [List.getElem?_drop, ← hi]
  congr 1
  omega

omit [DecidableEq Name] in
theorem Opened.finality {n : Node Name Tx Rest} (h : n.Opened) (hnear : n.objects.Near)
    (hlog : ∀ b ∈ n.blockLog, b.blockNum ≤ n.headBlockNum) :
    n.Finality n.objects.lastIrreversibleBlockNum := by
  refine ⟨⟨hnear, by simp [h.stack]⟩, Nat.le_refl _, ⟨?_, by simp [h.stack]⟩, fun b hb => ?_⟩
  · rw [h.committed]
    exact Nat.min_le_right _ _
  · have := hlog b hb
    rw [h.committed]
    omega

/-- **Irreversibility is monotone.** Along every run from an opened node
whose steps undo no state that raised the last irreversible block: from any
state of the run to any later one the value does not fall, the chain up to
the last committed block stays, and so does every block of the chain that
is in the log. -/
theorem run_irreversible (ev : Evaluators Name Tx Rest) (n : Node Name Tx Rest) (hopen : n.Opened)
    (hnear : n.objects.Near) (hlog : ∀ b ∈ n.blockLog, b.blockNum ≤ n.headBlockNum)
    (steps more : List (Step Name Tx))
    (hs : Along ev (KeepsIrreversible ev) n (steps ++ more)) :
    (n.run ev steps).objects.lastIrreversibleBlockNum ≤
      (n.run ev (steps ++ more)).objects.lastIrreversibleBlockNum ∧
    (n.run ev steps).objects.applied.drop
        ((n.run ev steps).headBlockNum - (n.run ev steps).committed) <:+
      (n.run ev (steps ++ more)).objects.applied ∧
    ∀ b ∈ (n.run ev steps).blockLog, b.id ∈ (n.run ev steps).objects.applied →
      b.id ∈ (n.run ev (steps ++ more)).objects.applied := by
  obtain ⟨hfirst, hmore⟩ := Lib.Along.append hs
  obtain ⟨hsteady, L, -, hfin⟩ :=
    run_final ev steps hopen.steady (hopen.finality hnear hlog) hfirst
  obtain ⟨hsteady', L', hL, hfin'⟩ := run_final ev more hsteady.keep_committed hfin.raise hmore
  have hkept := hsteady'.kept_suffix
  rw [run_append]
  refine ⟨hL.trans hfin'.reached, hkept, fun b hb happ => ?_⟩
  exact hkept.subset (hfin.committed_of_logged hb happ)

end Node

/-! ## Two scheduled witnesses -/

/-- Witnesses `0` and `1` take turns; both must confirm a block. -/
def duoWitnesses : Evaluators Nat Nat (List Nat) :=
  { soloWitness with
    hasWitness := fun _ w => w < 2
    scheduledWitnesses := fun _ => [0, 1] }

/-- A node opened at block 864000, which witness `1` has not confirmed yet. -/
def duoNode : Node Nat Nat (List Nat) :=
  { soloNode with
    db := soloNode.db.set { soloNode.objects with
      lastIrreversibleBlockNum := 863999
      lastConfirmedBlockNum := fun w => if w = 1 then 863999 else 864000 } }

theorem duoNode_opened : duoNode.Opened := ⟨rfl, rfl, rfl, rfl, rfl, rfl, rfl, rfl⟩

theorem duoNode_near : duoNode.objects.Near := by
  refine ⟨rfl, by decide, fun w => ?_, by decide, fun i id hi => ?_⟩
  · show (if w = 1 then 863999 else 864000) ≤ 864001
    split <;> decide
  · simp [duoNode, soloNode, openedAt, Node.objects] at hi

/-- A transaction is pending when witness `1` confirms: block 864000 becomes
irreversible. The next block, of witness `0`, resets the pending session and
with it the confirmation: the last irreversible block is 863999 again. -/
theorem reset_lowers_irreversible :
    duoNode.Opened ∧ duoNode.objects.Near ∧
    (∀ b ∈ duoNode.blockLog, b.blockNum ≤ duoNode.headBlockNum) ∧
    (duoNode.run duoWitnesses [.pushTransaction 5,
      .confirmBlock
        { soloBlock 864001 1 2 [] with witness := 1 }]).objects.lastIrreversibleBlockNum =
        864000 ∧
    (duoNode.run duoWitnesses [.pushTransaction 5,
      .confirmBlock { soloBlock 864001 1 2 [] with witness := 1 },
      .pushBlock { soloBlock 864001 1 3 [] with timestamp := 3 * 864002 }]).headBlockNum =
        864001 ∧
    (duoNode.run duoWitnesses [.pushTransaction 5,
      .confirmBlock { soloBlock 864001 1 2 [] with witness := 1 },
      .pushBlock { soloBlock 864001 1 3 [] with
        timestamp := 3 * 864002 }]).objects.lastIrreversibleBlockNum = 863999 := by
  refine ⟨duoNode_opened, duoNode_near, by decide, ?_, ?_, ?_⟩ <;> decide +kernel

/-- With the confirmation outside the pending session, the value stays. -/
theorem run_irreversible_duo :
    (duoNode.run duoWitnesses [.confirmBlock { soloBlock 864001 1 2 [] with witness := 1 },
      .pushTransaction 5]).objects.lastIrreversibleBlockNum ≤
    (duoNode.run duoWitnesses [.confirmBlock { soloBlock 864001 1 2 [] with witness := 1 },
      .pushTransaction 5, .pushBlock { soloBlock 864001 1 3 [] with
        timestamp := 3 * 864002 }]).objects.lastIrreversibleBlockNum :=
  (Node.run_irreversible duoWitnesses duoNode duoNode_opened duoNode_near (by decide)
    [.confirmBlock { soloBlock 864001 1 2 [] with witness := 1 }, .pushTransaction 5]
    [.pushBlock { soloBlock 864001 1 3 [] with timestamp := 3 * 864002 }]
    ⟨fun hp => absurd rfl hp, trivial,
      ⟨by decide +kernel, Node.switchKeepsIrreversible_of_extends (by decide +kernel)⟩,
      trivial⟩).1

end Gamebank.Chain
