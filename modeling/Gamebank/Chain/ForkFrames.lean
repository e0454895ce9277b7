import Gamebank.Chain.Frames

/-!
# The fork database over whole runs

Inside a switch the fork database only lets items go: blocks prune it, pops
and the recovery move its head among items that were alive when the switch
began (`Within`). So the forest of `ForkTree` lasts over every run.
-/

namespace Gamebank.Chain

open Gamebank.Lib

universe u v w

variable {Name : Type u} {Tx : Type v} {Rest : Type w} [DecidableEq Name]

/-- Pushing a block keeps `P`, and letting items go. -/
structure ForkDatabase.Lasting (P : ForkDatabase Name Tx → Prop) : Prop where
  fewer : ∀ f f', P f → (∀ i ∈ f'.alive, i ∈ f.alive) → f'.nextAddr = f.nextAddr → P f'
  pushed : ∀ f f' b, P f → f.pushBlock b = .ok f' → P f'

omit [DecidableEq Name] in
theorem ForkDatabase.sound_lasting :
    Lasting (fun f : ForkDatabase Name Tx => f.Sound) :=
  ⟨fun _ _ h => h.of_subset, fun _ _ _ h => h.pushBlock⟩

namespace Node

/-! ## The fork database inside a switch -/

/-- The items still alive are among those of `f`. -/
structure Within (f : ForkDatabase Name Tx) (n : Node Name Tx Rest) : Prop where
  alive : ∀ i ∈ n.forkDb.alive, i ∈ f.alive
  nextAddr : n.forkDb.nextAddr = f.nextAddr

section Frames

variable {f : ForkDatabase Name Tx}

omit [DecidableEq Name] in
theorem Within.lasts {P : ForkDatabase Name Tx → Prop} (hP : ForkDatabase.Lasting P)
    {n : Node Name Tx Rest} (h : n.Within f) (hf : P f) : P n.forkDb :=
  hP.fewer f n.forkDb hf h.alive h.nextAddr

omit [DecidableEq Name] in
theorem Within.sound {n : Node Name Tx Rest} (h : n.Within f) (hf : f.Sound) : n.forkDb.Sound :=
  h.lasts ForkDatabase.sound_lasting hf

omit [DecidableEq Name] in
theorem Within.settled {m s : Node Name Tx Rest} (h : m.Within f) (hs : Settled m s) :
    s.Within f := by
  refine ⟨fun i hi => h.alive i ?_, hs.forkAddr.trans h.nextAddr⟩
  rcases ForkDatabase.mem_alive.mp hi with hi | hi
  · exact ForkDatabase.mem_alive.mpr (Or.inl (hs.forkIndex i hi))
  · rw [hs.forkHead] at hi
    exact ForkDatabase.mem_alive.mpr (Or.inr hi)

/-- A block moves no head and adds no item. -/
theorem applyInSession_forkDb (ev : Evaluators Name Tx Rest) (b : SignedBlock Name Tx)
    {n : Node Name Tx Rest} (h : n.Within f) :
    (n.applyInSession ev b).Post (fun m => m.Within f ∧ m.forkDb.head = n.forkDb.head)
      (fun m => m.Within f ∧ m.forkDb.head = n.forkDb.head) := by
  refine Result.Post.onError (E := fun m => m.Within f ∧ m.forkDb.head = n.forkDb.head) ?_
    fun s hs => ⟨⟨hs.1.alive, hs.1.nextAddr⟩, hs.2⟩
  have hset : ∀ o, ((noteContract ev b { n with db := n.db.startUndoSession }).setObjects o).Within
      f := fun o => ⟨h.alive, h.nextAddr⟩
  refine applyBlock_post (fun r => ⟨hset _, rfl⟩) (fun r _ => ⟨hset _, rfl⟩)
    (fun r _ => ⟨hset _, rfl⟩) ?_
  intro r lib s _ _ _ hs
  have hw := (hset _).settled hs
  exact ⟨⟨hw, hs.forkHead⟩, fun r' =>
    ⟨⟨⟨hw.alive, hw.nextAddr⟩, hs.forkHead⟩, ⟨⟨hw.alive, hw.nextAddr⟩, hs.forkHead⟩⟩⟩

theorem forEach_forkDb (ev : Evaluators Name Tx Rest) (items : List (ForkItem Name Tx))
    {n : Node Name Tx Rest} (h : n.Within f) :
    (Result.forEach (fun item => applyInSession ev item.data) items n).Post
      (fun m => m.Within f ∧ m.forkDb.head = n.forkDb.head)
      (fun m => m.Within f ∧ m.forkDb.head = n.forkDb.head) := by
  refine Result.forEach_post (fun item _ s hs => ?_) ⟨h, rfl⟩
  refine (applyInSession_forkDb ev item.data hs.1).imp ?_ ?_
  · exact fun m hm => ⟨hm.1, hm.2.trans hs.2⟩
  · exact fun m hm => ⟨hm.1, hm.2.trans hs.2⟩

omit [DecidableEq Name] in
/-- **What `pop_block` can do** with no pending session open. -/
theorem popBlock_cases (pinned : List (ForkItem Name Tx)) {n : Node Name Tx Rest}
    (hp : n.pendingTxSession = none) :
    (∃ e, n.popBlock pinned = .error e n) ∨
    (∃ top below txs, n.forkDb.head = some top ∧ n.forkDb.lock pinned top.prev = some below ∧
      n.popBlock pinned =
        .ok { n.undo with forkDb := { n.forkDb with head := some below }, poppedTx := txs }) := by
  unfold popBlock
  simp only [KeepsBranch.resetPending_eq hp]
  split
  · exact Or.inl ⟨_, rfl⟩
  · unfold ForkDatabase.popBlock
    split
    · rename_i hf
      split at hf
      · exact Or.inl ⟨_, rfl⟩
      · split at hf
        · exact Or.inl ⟨_, rfl⟩
        · simp at hf
    · rename_i f' hf
      split at hf
      · simp at hf
      · rename_i top htop
        split at hf
        · simp at hf
        · rename_i below hbelow
          simp only [Except.ok.injEq] at hf
          subst hf
          exact Or.inr ⟨top, below, _, htop, hbelow, rfl⟩

omit [DecidableEq Name] in
theorem Within.popBlock {pinned : List (ForkItem Name Tx)} (hpin : ∀ i ∈ pinned, i ∈ f.alive)
    {n : Node Name Tx Rest} (h : n.Within f) (hp : n.pendingTxSession = none) :
    (n.popBlock pinned).Post (fun m => m.Within f ∧ m.pendingTxSession = none)
      (fun m => m.Within f ∧ m.pendingTxSession = none) := by
  rcases popBlock_cases pinned hp with ⟨e, heq⟩ | ⟨top, below, txs, -, hlock, heq⟩
  · rw [heq]
    exact ⟨h, hp⟩
  · rw [heq]
    refine ⟨⟨fun i hi => ?_, h.nextAddr⟩, hp⟩
    rcases ForkDatabase.mem_alive.mp hi with hi | hi
    · exact h.alive i (ForkDatabase.mem_alive.mpr (Or.inl hi))
    · simp only [Option.some.injEq] at hi
      subst hi
      exact (ForkDatabase.mem_of_lock hlock).1.elim (h.alive _) (hpin _)

omit [DecidableEq Name] in
theorem Within.popUntil {pinned : List (ForkItem Name Tx)} (hpin : ∀ i ∈ pinned, i ∈ f.alive)
    (fork : BlockId) {n : Node Name Tx Rest} (h : n.Within f) (hp : n.pendingTxSession = none) :
    (n.popUntil pinned fork).Post
      (fun m => (m.Within f ∧ m.pendingTxSession = none) ∧ m.headBlockId = fork)
      (fun m => m.Within f ∧ m.pendingTxSession = none) := by
  refine (Result.whileLoop_post (I := fun m => m.Within f ∧ m.pendingTxSession = none)
    (fun s hs _ => hs.1.popBlock hpin hs.2) (fun s hs => hs) _ ⟨h, hp⟩).imp ?_ fun s hs => hs
  intro s hs
  exact ⟨hs.1, by simpa using hs.2⟩

omit [DecidableEq Name] in
theorem popUntil_blockLog (pinned : List (ForkItem Name Tx)) (fork : BlockId)
    {n : Node Name Tx Rest} (hp : n.pendingTxSession = none) :
    (n.popUntil pinned fork).Post (fun m => m.blockLog = n.blockLog)
      (fun m => m.blockLog = n.blockLog) := by
  refine (Result.whileLoop_post
    (I := fun m => m.blockLog = n.blockLog ∧ m.pendingTxSession = none)
    (fun s hs _ => ?_) (fun s hs => hs) _ ⟨rfl, hp⟩).imp (fun s hs => hs.1.1) fun s hs => hs.1
  rcases popBlock_cases pinned hs.2 with ⟨e, heq⟩ | ⟨top, below, txs, -, -, heq⟩
  · rw [heq]
    exact hs
  · rw [heq]
    exact hs

end Frames

/-! ## Recovery -/

section Recovery

variable {ev : Evaluators Name Tx Rest} {pinned bad : List (ForkItem Name Tx)}
  {old : ForkDatabase.Branch Name Tx} {fork : BlockId} {tip : ForkItem Name Tx}
  {s : Node Name Tx Rest}

/-- The node with the bad items removed and the old tip as head of the fork
database, where the recovery starts. -/
def atTip (s : Node Name Tx Rest) (bad : List (ForkItem Name Tx)) (tip : ForkItem Name Tx) :
    Node Name Tx Rest :=
  { s with forkDb := (bad.foldl (fun f item => f.remove item.id) s.forkDb).setHead tip }

theorem recoverFork_eq (htip : old.head? = some tip) :
    s.recoverFork ev pinned bad old fork = ((s.atTip bad tip).popUntil pinned fork).andThen
      (Result.forEach (fun item => applyInSession ev item.data) old.reverse) := by
  unfold recoverFork atTip
  simp only [htip]

omit [DecidableEq Name] in
theorem removed_frame (bad : List (ForkItem Name Tx)) (f : ForkDatabase Name Tx) :
    (bad.foldl (fun f item => f.remove item.id) f).nextAddr = f.nextAddr ∧
      ∀ i ∈ (bad.foldl (fun f item => f.remove item.id) f).index, i ∈ f.index := by
  induction bad generalizing f with
  | nil => exact ⟨rfl, fun i hi => hi⟩
  | cons item rest ih =>
      obtain ⟨h1, h2⟩ := ih (f.remove item.id)
      exact ⟨h1, fun i hi => List.mem_of_mem_filter (h2 i hi)⟩

omit [DecidableEq Name] in
theorem Within.atTip {f : ForkDatabase Name Tx} (h : s.Within f)
    (bad : List (ForkItem Name Tx)) (htip : tip ∈ f.alive) : (s.atTip bad tip).Within f := by
  obtain ⟨h1, h2⟩ := removed_frame bad s.forkDb
  refine ⟨fun i hi => ?_, h1.trans h.nextAddr⟩
  rcases ForkDatabase.mem_alive.mp hi with hi | hi
  · exact h.alive i (ForkDatabase.mem_alive.mpr (Or.inl (h2 i hi)))
  · have : some tip = some i := hi
    simp only [Option.some.injEq] at this
    exact this ▸ htip

end Recovery

/-! ## The forest over whole runs -/

section Runs

variable (ev : Evaluators Name Tx Rest)

omit [DecidableEq Name] in
@[simp] theorem resetPending_forkDb (n : Node Name Tx Rest) :
    n.resetPending.forkDb = n.forkDb := by
  unfold resetPending
  split <;> rfl

omit [DecidableEq Name] in
theorem resetPending_noPending (n : Node Name Tx Rest) :
    n.resetPending.pendingTxSession = none := by
  unfold resetPending
  split
  · assumption
  · rfl

omit [DecidableEq Name] in
@[simp] theorem pushTransactionInner_forkDb (tx : Tx) (n : Node Name Tx Rest) :
    (n.pushTransactionInner ev tx).state.forkDb = n.forkDb := by
  unfold pushTransactionInner
  have hopen : (if n.pendingTxSession.isSome then n else n.openPending).forkDb = n.forkDb := by
    split <;> rfl
  generalize (if n.pendingTxSession.isSome then n else n.openPending) = m at hopen
  simp only
  split
  · exact hopen
  · exact hopen

omit [DecidableEq Name] in
theorem restoreTransactions_forkDb (txs : List Tx) (n : Node Name Tx Rest) :
    (txs.foldl (restoreTransaction ev) n).forkDb = n.forkDb := by
  induction txs generalizing n with
  | nil => rfl
  | cons tx txs ih =>
      rw [List.foldl_cons, ih]
      unfold restoreTransaction
      split
      · rfl
      · exact pushTransactionInner_forkDb ev tx n

omit [DecidableEq Name] in
@[simp] theorem restorePending_forkDb (pending : List Tx) (n : Node Name Tx Rest) :
    (n.restorePending ev pending).forkDb = n.forkDb :=
  (restoreTransactions_forkDb ev pending _).trans (restoreTransactions_forkDb ev n.poppedTx n)

omit [DecidableEq Name] in
theorem takeTransactions_forkDb (size time : Nat) (txs : List Tx)
    (acc : Node Name Tx Rest × List Tx × Nat) :
    (txs.foldl (takeTransaction ev size time) acc).1.forkDb = acc.1.forkDb := by
  induction txs generalizing acc with
  | nil => rfl
  | cons tx txs ih =>
      rw [List.foldl_cons, ih]
      unfold takeTransaction
      simp only
      split
      · rfl
      · split
        · rfl
        · split <;> rfl

/-- A block leaves the pending session as it is. -/
theorem applyInSession_pending (b : SignedBlock Name Tx) (n : Node Name Tx Rest) :
    (n.applyInSession ev b).Post (fun m => m.pendingTxSession = n.pendingTxSession)
      (fun m => m.pendingTxSession = n.pendingTxSession) := by
  refine Result.Post.onError (E := fun m => m.pendingTxSession = n.pendingTxSession) ?_ fun _ h => h
  refine applyBlock_post (fun _ => rfl) (fun _ _ => rfl) (fun _ _ => rfl) ?_
  intro r lib s _ _ _ hs
  have hp : s.pendingTxSession = n.pendingTxSession := hs.pendingTxSession
  exact ⟨hp, fun r' => ⟨hp, hp⟩⟩

theorem Within.recoverFork {f : ForkDatabase Name Tx} {pinned : List (ForkItem Name Tx)}
    (hpin : ∀ i ∈ pinned, i ∈ f.alive) (bad : List (ForkItem Name Tx))
    {old : ForkDatabase.Branch Name Tx} {tip : ForkItem Name Tx} (htip : old.head? = some tip)
    (htipf : tip ∈ f.alive) (fork : BlockId) {n : Node Name Tx Rest} (h : n.Within f)
    (hp : n.pendingTxSession = none) :
    (n.recoverFork ev pinned bad old fork).Post (Within f) (Within f) := by
  rw [recoverFork_eq htip]
  have hpop := (h.atTip bad htipf).popUntil hpin fork hp
  exact Result.Post.andThen (hpop.imp (fun _ hs => hs.1.1) fun _ hs => hs.1) fun s hs =>
    (forEach_forkDb ev old.reverse hs).imp (fun _ h => h.1) fun _ h => h.1

theorem Within.pushBranch {f : ForkDatabase Name Tx} {pinned : List (ForkItem Name Tx)}
    (hpin : ∀ i ∈ pinned, i ∈ f.alive) {old : ForkDatabase.Branch Name Tx}
    {tip : ForkItem Name Tx} (htip : old.head? = some tip) (htipf : tip ∈ f.alive)
    (fork : BlockId) (items : List (ForkItem Name Tx)) {n : Node Name Tx Rest} (h : n.Within f)
    (hp : n.pendingTxSession = none) :
    (n.pushBranch ev pinned old fork items).Post (Within f) (Within f) := by
  induction items generalizing n with
  | nil => exact h
  | cons item rest ih =>
      unfold Node.pushBranch
      have happly := (applyInSession_forkDb ev item.data h).and
        (applyInSession_pending ev item.data n)
      cases hr : n.applyInSession ev item.data with
      | ok n' =>
          rw [hr] at happly
          exact ih happly.1.1 (happly.2.trans hp)
      | error e n' =>
          rw [hr] at happly
          exact Result.Post.andThen (happly.1.1.recoverFork ev hpin (item :: rest) htip htipf fork
            (happly.2.trans hp)) fun s hs => hs

theorem switchForks_within {f : ForkDatabase Name Tx} {n : Node Name Tx Rest}
    {newHead : ForkItem Name Tx} (hf : n.forkDb = f) (hhead : f.head = some newHead)
    (hp : n.pendingTxSession = none) : (n.switchForks ev newHead).Post (Within f) (Within f) := by
  have hw : n.Within f := ⟨fun i hi => hf ▸ hi, by rw [hf]⟩
  unfold switchForks
  rw [hf]
  split
  · exact hw
  · rename_i first second hbranch
    obtain ⟨h1, h2, tip, htip, -⟩ := ForkDatabase.fetchBranchFrom_mem hbranch
    have hpin : ∀ i ∈ newHead :: (first ++ second), i ∈ f.alive :=
      List.forall_mem_cons.mpr ⟨ForkDatabase.mem_alive.mpr (Or.inr hhead),
        List.forall_mem_append.mpr ⟨h1, h2⟩⟩
    split
    · exact hw
    · rename_i last _
      exact Result.Post.andThen
        ((hw.popUntil hpin last.previousId hp).imp (fun _ hs => hs.1) fun _ hs => hs.1)
        fun s hs => hs.1.pushBranch ev hpin htip (h2 tip (List.mem_of_mem_head? htip)) _ _ hs.2

variable {P : ForkDatabase Name Tx → Prop} (hP : ForkDatabase.Lasting P)

include hP

theorem pushBlockInner_lasts (b : SignedBlock Name Tx) {n : Node Name Tx Rest}
    (h : P n.forkDb) (hp : n.pendingTxSession = none) :
    (n.pushBlockInner ev b).Post (fun m => P m.forkDb) (fun m => P m.forkDb) := by
  unfold pushBlockInner
  cases hpush : n.forkDb.pushBlock b with
  | error e => exact h
  | ok f =>
      have hf : P f := hP.pushed _ _ b h hpush
      simp only
      split
      · exact hf
      · rename_i newHead hhead
        split
        · split
          · have hsw := switchForks_within ev (n := { n with forkDb := f }) rfl hhead hp
            exact hsw.imp (fun _ hs => hs.lasts hP hf) fun _ hs => hs.lasts hP hf
          · exact hf
        · have hw : ({ n with forkDb := f } : Node Name Tx Rest).Within f := ⟨fun _ hi => hi, rfl⟩
          have happly := applyInSession_forkDb ev b hw
          refine Result.Post.onError (happly.imp (fun _ hs => hs.1.lasts hP hf) fun _ hs => hs) ?_
          intro s hs
          refine hP.fewer _ _ (hs.1.lasts hP hf) (fun i hi => ?_) rfl
          rcases ForkDatabase.mem_alive.mp hi with hi | hi
          · exact ForkDatabase.mem_alive.mpr (Or.inl (List.mem_of_mem_filter hi))
          · exact ForkDatabase.mem_alive.mpr (Or.inr hi)

theorem pushBlock_lasts (b : SignedBlock Name Tx) {n : Node Name Tx Rest} (h : P n.forkDb) :
    (n.pushBlock ev b).Post (fun m => P m.forkDb) (fun m => P m.forkDb) := by
  have hclear : P n.clearPending.forkDb := by
    rw [clearPending, resetPending_forkDb]
    exact h
  refine Result.Post.onExit (pushBlockInner_lasts ev hP b hclear (resetPending_noPending _)) ?_ ?_
  · intro s hs
    rw [restorePending_forkDb]
    exact hs
  · intro s hs
    rw [restorePending_forkDb]
    exact hs

/-- A call of any entry point keeps what lasts. -/
theorem step_lasts (s : Step Name Tx) {n : Node Name Tx Rest} (h : P n.forkDb) :
    P (n.step ev s).forkDb := by
  cases s with
  | pushBlock b => exact Result.post_state.mp (pushBlock_lasts ev hP b h)
  | pushTransaction tx =>
      show P (n.pushTransaction ev tx).state.forkDb
      unfold pushTransaction
      split
      · rw [pushTransactionInner_forkDb]
        exact h
      · exact h
  | generateBlock headerSize time owner key =>
      have hassembled : P (n.assembleBlock ev headerSize time owner key).1.forkDb := by
        unfold assembleBlock
        simp only [resetPending_forkDb, takeTransactions_forkDb]
        rw [openPending, resetPending_forkDb]
        exact h
      refine (Result.post_state (P := fun m : Node Name Tx Rest => P m.forkDb)).mp ?_
      show (n.generateBlock ev headerSize time owner key).Post _ _
      unfold generateBlock
      simp only
      split
      · exact h
      · split
        · exact h
        · split
          · exact h
          · split
            · exact h
            · split
              · exact pushBlock_lasts ev hP _ hassembled
              · exact hassembled
  | popBlock =>
      have hw : n.resetPending.Within n.forkDb :=
        ⟨fun i hi => by rwa [resetPending_forkDb] at hi, by rw [resetPending_forkDb]⟩
      have heq : n.popBlock [] = n.resetPending.popBlock [] := by
        unfold popBlock
        rw [KeepsBranch.resetPending_eq (resetPending_noPending n)]
      have hpop : (n.resetPending.popBlock []).Post _ _ :=
        hw.popBlock (by simp) (resetPending_noPending n)
      rw [← heq] at hpop
      exact (Result.post_state.mp hpop).1.lasts hP h
  | confirmBlock b =>
      show P (n.confirmBlock ev b).state.forkDb
      rcases confirmBlock_cases ev b n with heq | ⟨-, -, heq | ⟨lib, -, heq⟩⟩
      · rw [heq]
        exact h
      · rw [heq]
        exact h
      · rw [heq]
        have hw : (n.setObjects { n.objects.recordConfirmation b with
            lastIrreversibleBlockNum := lib }).Within n.forkDb := ⟨fun _ hi => hi, rfl⟩
        exact (hw.settled (settleIrreversible_settled _)).lasts hP h

theorem run_lasts (steps : List (Step Name Tx)) {n : Node Name Tx Rest} (h : P n.forkDb) :
    P (n.run ev steps).forkDb := by
  induction steps generalizing n with
  | nil => exact h
  | cons s rest ih => exact ih (step_lasts ev hP s h)

omit hP

theorem step_sound (s : Step Name Tx) {n : Node Name Tx Rest} (h : n.forkDb.Sound) :
    (n.step ev s).forkDb.Sound :=
  step_lasts ev ForkDatabase.sound_lasting s h

/-- Along every run the items of the fork database form a forest. -/
theorem run_sound (steps : List (Step Name Tx)) {n : Node Name Tx Rest} (h : n.forkDb.Sound) :
    (n.run ev steps).forkDb.Sound :=
  run_lasts ev ForkDatabase.sound_lasting steps h

end Runs

end Node

end Gamebank.Chain
