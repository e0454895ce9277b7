import Gamebank.Chain.Node
import Gamebank.Chain.ForkTree

/-!
# What the parts of a node's operations leave alone

One statement for each operation that the entry points are made of, in a
form that any invariant can be carried through: `Settled` for the end of
`update_last_irreversible_block`, `applyBlock_post` for `apply_block`,
`pushTransactionInner_cases` for `_push_transaction`.

The rules `KeepsPending`, `KeepsBranch` and `Keeps` then walk through the
entry points once: an invariant of the object database that a few
primitive operations keep is kept by `push_block` with its fork switches,
by `push_transaction`, `generate_block` and `pop_block`.
-/

namespace Gamebank.Chain

open Gamebank.Lib

universe u v w

variable {Name : Type u} {Tx : Type v} {Rest : Type w}

namespace Node

/-! ## Irreversible blocks -/

theorem walkDown_num_le {f : ForkDatabase Name Tx} {num fuel : Nat}
    {start : Option (ForkItem Name Tx)} {item : ForkItem Name Tx}
    (h : f.walkDown num fuel start = some item) : item.num ≤ num := by
  induction fuel generalizing start with
  | zero => cases start <;> simp [ForkDatabase.walkDown] at h
  | succ fuel ih =>
      cases start with
      | none => simp [ForkDatabase.walkDown] at h
      | some next =>
          unfold ForkDatabase.walkDown at h
          split at h
          · exact ih h
          · simp only [Option.some.injEq] at h
            subst h
            omega

/-- The block fetched for a number is not above it. -/
theorem fetchBlockOnMainBranchByNumber_num_le {f : ForkDatabase Name Tx} {num : Nat}
    {item : ForkItem Name Tx} (h : f.fetchBlockOnMainBranchByNumber num = some item) :
    item.num ≤ num := by
  unfold ForkDatabase.fetchBlockOnMainBranchByNumber at h
  split at h
  · simp at h
  · rename_i i hi
    simp only [Option.some.injEq] at h
    subst h
    have hmem : i ∈ f.fetchBlockByNumber num := by simp [hi]
    have := (List.mem_filter.mp hmem).2
    simp only [decide_eq_true_eq] at this
    omega
  · unfold ForkDatabase.walkMainBranchToNum at h
    split at h
    · simp at h
    · split at h
      · simp at h
      · exact walkDown_num_le h

/-- An entry moves from the map to the contract log; nothing else changes. -/
theorem appendContract_frame (num : Nat) (n : Node Name Tx Rest) :
    ∃ waiting log, (n.appendContract num).state =
      { n with contractBlock := waiting, contractLog := log } := by
  unfold appendContract
  split
  · exact ⟨n.contractBlock, n.contractLog, rfl⟩
  · split
    · exact ⟨_, _, rfl⟩
    · exact ⟨n.contractBlock, n.contractLog, rfl⟩

/-- Appending to the logs changes the logs only, and appends no more than was asked. -/
theorem appendToLog_frame (count : Nat) (n : Node Name Tx Rest) :
    ∃ log waiting contracts, (n.appendToLog count).state =
        { n with
          blockLog := n.blockLog ++ log
          contractBlock := waiting
          contractLog := contracts } ∧
      ∀ b ∈ log, 0 < count ∧ b.blockNum ≤ n.logHeadNum + count := by
  induction count generalizing n with
  | zero => exact ⟨[], n.contractBlock, n.contractLog, by simp [appendToLog]⟩
  | succ count ih =>
      unfold appendToLog
      split
      · exact ⟨[], n.contractBlock, n.contractLog, by simp⟩
      · rename_i item hitem
        have hnum : item.data.blockNum ≤ n.logHeadNum + 1 :=
          fetchBlockOnMainBranchByNumber_num_le hitem
        obtain ⟨waiting, contracts, hmoved⟩ :=
          appendContract_frame item.num { n with blockLog := n.blockLog ++ [item.data] }
        generalize appendContract item.num { n with blockLog := n.blockLog ++ [item.data] } = r
          at hmoved
        cases r with
        | error e s =>
            refine ⟨[item.data], waiting, contracts, hmoved, fun b hb => ?_⟩
            rw [List.mem_singleton] at hb
            subst hb
            omega
        | ok s =>
            simp only [Result.state_ok] at hmoved
            obtain ⟨log, waiting', contracts', hlog, hle⟩ := ih s
            have hhead : s.logHeadNum = item.data.blockNum := by
              rw [hmoved]
              simp [logHeadNum]
            refine ⟨item.data :: log, waiting', contracts', ?_, fun b hb => ?_⟩
            · rw [Result.andThen_ok, hlog, hmoved]
              simp
            · rcases List.mem_cons.mp hb with rfl | hb
              · omega
              · have := hle b hb
                omega

/-- The head of the log only rises. -/
theorem appendToLog_logHeadNum (count : Nat) {n : Node Name Tx Rest} (h : n.forkDb.Sound) :
    n.logHeadNum ≤ (n.appendToLog count).state.logHeadNum := by
  induction count generalizing n with
  | zero => exact Nat.le_refl _
  | succ count ih =>
      unfold appendToLog
      split
      · exact Nat.le_refl _
      · rename_i item hitem
        have hnum : item.data.blockNum = n.logHeadNum + 1 :=
          ForkDatabase.fetchBlockOnMainBranchByNumber_num h hitem
        obtain ⟨waiting, contracts, hmoved⟩ :=
          appendContract_frame item.num { n with blockLog := n.blockLog ++ [item.data] }
        generalize appendContract item.num { n with blockLog := n.blockLog ++ [item.data] } = r
          at hmoved
        have hhead : r.state.logHeadNum = item.data.blockNum := by
          rw [hmoved]
          simp [logHeadNum]
        cases r with
        | error e s =>
            simp only [Result.andThen_error, Result.state_error] at hhead ⊢
            omega
        | ok s =>
            simp only [Result.andThen_ok, Result.state_ok] at hhead ⊢
            have hfork :
              s.forkDb = n.forkDb := by rw [← Result.state_ok (ε := ChainException) s, hmoved]
            have hle := ih (n := s) (hfork ▸ h)
            omega

/-- Nothing is logged exactly when there is nothing to log, or the first block
to log is not in the fork database; then the contract log stays too. -/
theorem appendToLog_unlogged (count : Nat) (n : Node Name Tx Rest) :
    ((n.appendToLog count).state.blockLog = n.blockLog ↔
      (0 < count → n.forkDb.fetchBlockOnMainBranchByNumber (n.logHeadNum + 1) = none)) ∧
    ((n.appendToLog count).state.blockLog = n.blockLog →
      (n.appendToLog count).state.contractLog = n.contractLog) := by
  cases count with
  | zero => exact ⟨⟨fun _ h => absurd h (Nat.lt_irrefl 0), fun _ => rfl⟩, fun _ => rfl⟩
  | succ count =>
      unfold appendToLog
      cases hitem : n.forkDb.fetchBlockOnMainBranchByNumber (n.logHeadNum + 1) with
      | none => exact ⟨⟨fun _ _ => rfl, fun _ => rfl⟩, fun _ => rfl⟩
      | some item =>
          have hgrown : ((appendContract item.num
              { n with blockLog := n.blockLog ++ [item.data] }).andThen
                (appendToLog count)).state.blockLog ≠ n.blockLog := by
            obtain ⟨waiting, contracts, hmoved⟩ :=
              appendContract_frame item.num { n with blockLog := n.blockLog ++ [item.data] }
            generalize appendContract item.num { n with blockLog := n.blockLog ++ [item.data] } = r
              at hmoved
            cases r with
            | error e s =>
                simp only [Result.state_error] at hmoved
                simp [hmoved]
            | ok s =>
                simp only [Result.state_ok] at hmoved
                obtain ⟨log, waiting', contracts', hlog, -⟩ := appendToLog_frame count s
                rw [Result.andThen_ok, hlog, hmoved]
                simp
          simp only
          exact ⟨⟨fun h => absurd h hgrown, fun h => absurd (h (Nat.succ_pos count)) (by simp)⟩,
            fun h => absurd h hgrown⟩

/-- `s` is `m` with the undo states up to the irreversible block dropped;
beside that only the logs have grown and the fork database lost old items. -/
structure Settled (m s : Node Name Tx Rest) : Prop where
  db : s.db = m.db.commit m.objects.lastIrreversibleBlockNum
  committed : s.committed = max m.committed (min m.objects.lastIrreversibleBlockNum m.headBlockNum)
  pendingTxSession : s.pendingTxSession = m.pendingTxSession
  pendingTx : s.pendingTx = m.pendingTx
  poppedTx : s.poppedTx = m.poppedTx
  forkHead : s.forkDb.head = m.forkDb.head
  forkAddr : s.forkDb.nextAddr = m.forkDb.nextAddr
  forkIndex : ∀ i ∈ s.forkDb.index, i ∈ m.forkDb.index
  blockLog : ∃ log, s.blockLog = m.blockLog ++ log ∧
    ∀ b ∈ log, b.blockNum ≤ m.objects.lastIrreversibleBlockNum
  logHead : m.forkDb.Sound → m.logHeadNum ≤ s.logHeadNum
  unlogged : s.blockLog = m.blockLog ↔ (m.logHeadNum < m.objects.lastIrreversibleBlockNum →
    m.forkDb.fetchBlockOnMainBranchByNumber (m.logHeadNum + 1) = none)
  contractLog : s.blockLog = m.blockLog → s.contractLog = m.contractLog

theorem Settled.objects {m s : Node Name Tx Rest} (h : Settled m s) : s.objects = m.objects := by
  rw [Node.objects, h.db]
  rfl

theorem setMaxSize_frame (f : ForkDatabase Name Tx) (size : Nat) :
    (f.setMaxSize size).head = f.head ∧ (f.setMaxSize size).nextAddr = f.nextAddr ∧
      ∀ i ∈ (f.setMaxSize size).index, i ∈ f.index := by
  unfold ForkDatabase.setMaxSize
  split
  · exact ⟨rfl, rfl, fun i hi => hi⟩
  · exact ⟨rfl, rfl, fun i hi => List.mem_of_mem_filter hi⟩

theorem settleIrreversible_settled (n : Node Name Tx Rest) :
    Settled n n.settleIrreversible.state := by
  unfold settleIrreversible
  simp only
  generalize hm : ({ n with
      db := n.db.commit n.objects.lastIrreversibleBlockNum
      committed := max n.committed (min n.objects.lastIrreversibleBlockNum n.headBlockNum) } :
    Node Name Tx Rest) = m
  obtain ⟨log, waiting, contracts, hlog, hle⟩ :=
    appendToLog_frame (n.objects.lastIrreversibleBlockNum - m.logHeadNum) m
  have hlog_le : ∀ b ∈ log, b.blockNum ≤ n.objects.lastIrreversibleBlockNum := by
    intro b hb
    have := hle b hb
    omega
  have hhead : m.forkDb.Sound → m.logHeadNum ≤
      (m.appendToLog (n.objects.lastIrreversibleBlockNum - m.logHeadNum)).state.logHeadNum :=
    appendToLog_logHeadNum _
  obtain ⟨hiff, hcontract⟩ :=
    appendToLog_unlogged (n.objects.lastIrreversibleBlockNum - m.logHeadNum) m
  rw [Nat.sub_pos_iff_lt] at hiff
  generalize m.appendToLog (n.objects.lastIrreversibleBlockNum - m.logHeadNum) = r
    at hlog hhead hiff hcontract
  cases r with
  | error e s =>
      simp only [Result.state_error] at hlog
      subst hlog
      subst hm
      exact ⟨rfl, rfl, rfl, rfl, rfl, rfl, rfl, fun i hi => hi, ⟨log, rfl, hlog_le⟩, hhead, hiff,
        hcontract⟩
  | ok s =>
      simp only [Result.state_ok] at hlog
      subst hlog
      subst hm
      obtain ⟨h1, h2, h3⟩ := setMaxSize_frame n.forkDb
        ((sub32 n.headBlockNum n.objects.lastIrreversibleBlockNum + 1) % uint32Size)
      exact ⟨rfl, rfl, rfl, rfl, rfl, h1, h2, h3, ⟨log, rfl, hlog_le⟩, hhead, hiff, hcontract⟩

/-! ## Blocks -/

section Blocks

variable [DecidableEq Name]

/-- The rule for `apply_block`: a normal end or an exception leaves one of
the states `applyHeader` stops in, or what settling leaves. -/
theorem applyBlock_settle {ev : Evaluators Name Tx Rest} {b : SignedBlock Name Tx}
    {n : Node Name Tx Rest} {Q E : Node Name Tx Rest → Prop}
    (hstop : ∀ r, E ((n.noteContract ev b).setObjects (n.objects.setRest r)))
    (hmoved : ∀ r, b.previous = n.headBlockId →
      E ((n.noteContract ev b).setObjects ((n.objects.setRest r).advanceHead b)))
    (hsigned : ∀ r, b.previous = n.headBlockId →
      E ((n.noteContract ev b).setObjects
        (((n.objects.setRest r).advanceHead b).updateSigningWitness b)))
    (hsettled : ∀ r lib m, b.previous = n.headBlockId →
      n.objects.applyHeader ev b =
        (((n.objects.setRest r).advanceHead b).updateSigningWitness b, none) →
      (((n.objects.setRest r).advanceHead b).updateSigningWitness b).newLastIrreversible ev =
        .ok lib →
      m = (n.noteContract ev b).setObjects
        { ((n.objects.setRest r).advanceHead b).updateSigningWitness b with
          lastIrreversibleBlockNum := lib } →
      E m.settleIrreversible.state ∧
        ∀ r', E (m.settleIrreversible.state.setObjects
            (m.settleIrreversible.state.objects.setRest r')) ∧
          Q (m.settleIrreversible.state.setObjects
            (m.settleIrreversible.state.objects.setRest r'))) :
    (n.applyBlock ev b).Post Q E := by
  unfold applyBlock
  simp only [show (n.noteContract ev b).objects = n.objects from rfl]
  rcases Objects.applyHeader_cases ev n.objects b with ⟨r, e, heq⟩ | ⟨r, e, hprev, heq⟩ |
    ⟨r, hprev, heq⟩
  · rw [heq]
    exact hstop r
  · rw [heq]
    exact hmoved r hprev
  · rw [heq]
    simp only [updateLastIrreversibleBlock]
    have hsig := hsigned r hprev
    have hset := fun lib m => hsettled r lib m hprev heq
    generalize ((n.objects.setRest r).advanceHead b).updateSigningWitness b = o at hsig hset
    simp only [show ((n.noteContract ev b).setObjects o).objects = o from rfl]
    cases hlib : o.newLastIrreversible ev with
    | error e => exact hsig
    | ok lib =>
        simp only
        obtain ⟨hE, hQ⟩ := hset lib (((n.noteContract ev b).setObjects o).setObjects
          { o with lastIrreversibleBlockNum := lib }) hlib rfl
        generalize (((n.noteContract ev b).setObjects o).setObjects
          { o with lastIrreversibleBlockNum := lib }).settleIrreversible = res at hE hQ
        cases res with
        | error e s => exact hE
        | ok s =>
            simp only [Result.andThen_ok, finishBlock]
            split
            · rename_i r' e _
              exact (hQ r').1
            · rename_i r' _
              exact (hQ r').2

/-- The rule for `apply_block`, with what is known of a settled state. -/
theorem applyBlock_post {ev : Evaluators Name Tx Rest} {b : SignedBlock Name Tx}
    {n : Node Name Tx Rest} {Q E : Node Name Tx Rest → Prop}
    (hstop : ∀ r, E ((n.noteContract ev b).setObjects (n.objects.setRest r)))
    (hmoved : ∀ r, b.previous = n.headBlockId →
      E ((n.noteContract ev b).setObjects ((n.objects.setRest r).advanceHead b)))
    (hsigned : ∀ r, b.previous = n.headBlockId →
      E ((n.noteContract ev b).setObjects
        (((n.objects.setRest r).advanceHead b).updateSigningWitness b)))
    (hsettled : ∀ r lib s, b.previous = n.headBlockId →
      n.objects.applyHeader ev b =
        (((n.objects.setRest r).advanceHead b).updateSigningWitness b, none) →
      (((n.objects.setRest r).advanceHead b).updateSigningWitness b).newLastIrreversible ev =
        .ok lib →
      Settled ((n.noteContract ev b).setObjects
        { ((n.objects.setRest r).advanceHead b).updateSigningWitness b with
          lastIrreversibleBlockNum := lib }) s →
      E s ∧ (∀ r', E (s.setObjects (s.objects.setRest r')) ∧
        Q (s.setObjects (s.objects.setRest r')))) :
    (n.applyBlock ev b).Post Q E := by
  refine applyBlock_settle hstop hmoved hsigned fun r lib m hprev hheader hlib hm => ?_
  exact hsettled r lib _ hprev hheader hlib (hm ▸ settleIrreversible_settled m)

/-- **What `confirm_block` can do**: nothing, or record the confirmation and
then stop or settle. -/
theorem confirmBlock_cases (ev : Evaluators Name Tx Rest) (b : SignedBlock Name Tx)
    (n : Node Name Tx Rest) :
    (n.confirmBlock ev b).state = n ∨
    (n.objects.validateBlockHeader ev b = .ok () ∧
      ¬b.blockNum < n.objects.lastConfirmedBlockNum b.witness ∧
      ((n.confirmBlock ev b).state = n.setObjects (n.objects.recordConfirmation b) ∨
        ∃ lib, (n.objects.recordConfirmation b).newLastIrreversible ev = .ok lib ∧
          (n.confirmBlock ev b).state =
            (n.setObjects { n.objects.recordConfirmation b with
              lastIrreversibleBlockNum := lib }).settleIrreversible.state)) := by
  unfold confirmBlock
  split
  · exact Or.inl rfl
  · rename_i hval
    split
    · exact Or.inl rfl
    · rename_i hstale
      refine Or.inr ⟨hval, hstale, ?_⟩
      unfold updateLastIrreversibleBlock
      simp only [show (n.setObjects (n.objects.recordConfirmation b)).objects =
        n.objects.recordConfirmation b from rfl]
      cases hlib : (n.objects.recordConfirmation b).newLastIrreversible ev with
      | error e => exact Or.inl rfl
      | ok lib => exact Or.inr ⟨lib, rfl, rfl⟩

end Blocks

/-! ## Transactions -/

/-- The node with a pending session open, opened now if need be. -/
def ensurePending (n : Node Name Tx Rest) : Node Name Tx Rest :=
  if n.pendingTxSession.isSome then n else n.openPending

/-- `_push_transaction` over a stack that has the pending session's state: the
inner session leaves no trace. -/
theorem pushTransactionInner_eq (ev : Evaluators Name Tx Rest) (tx : Tx) (n : Node Name Tx Rest)
    (hne : n.ensurePending.db.stack ≠ []) :
    n.pushTransactionInner ev tx =
      match ev.applyTransaction n.ensurePending.objects tx with
      | (_, some e) => .error e n.ensurePending
      | (r, none) =>
          .ok { n.ensurePending.setObjects (n.ensurePending.objects.setRest r) with
            pendingTx := n.ensurePending.pendingTx ++ [tx] } := by
  unfold pushTransactionInner
  rw [show (if n.pendingTxSession.isSome then n else n.openPending) = n.ensurePending from rfl]
  generalize n.ensurePending = m at hne
  simp only [objects, SnapshotStack.startUndoSession_cur]
  generalize ev.applyTransaction m.db.cur tx = res
  obtain ⟨r, e⟩ := res
  cases e with
  | some e => simp [Node.undo, setObjects]
  | none => simp [setObjects, SnapshotStack.squash_set_startUndoSession hne]

/-- **What `_push_transaction` can do**, over such a stack: nothing but open
the session, or change `rest` in it. -/
theorem pushTransactionInner_cases (ev : Evaluators Name Tx Rest) (tx : Tx)
    (n : Node Name Tx Rest) (hne : n.ensurePending.db.stack ≠ []) :
    (∃ e, n.pushTransactionInner ev tx = .error e n.ensurePending) ∨
    (∃ r, n.pushTransactionInner ev tx =
      .ok { n.ensurePending.setObjects (n.ensurePending.objects.setRest r) with
        pendingTx := n.ensurePending.pendingTx ++ [tx] }) := by
  rw [pushTransactionInner_eq ev tx n hne]
  split
  · exact Or.inl ⟨_, rfl⟩
  · exact Or.inr ⟨_, rfl⟩

/-- The nodes agree on the object database, its sessions and the block log. -/
structure SameDb (n n' : Node Name Tx Rest) : Prop where
  db : n'.db = n.db
  committed : n'.committed = n.committed
  pendingTxSession : n'.pendingTxSession = n.pendingTxSession
  blockLog : n'.blockLog = n.blockLog

/-! ## Carrying an invariant through the entry points -/

variable {ev : Evaluators Name Tx Rest}

/-! ### Transactions -/

/-- `I` is kept by opening a pending session and by changing `rest` in it. -/
structure KeepsPending (I : Node Name Tx Rest → Prop) : Prop where
  congr : ∀ n n', I n → SameDb n n' → n'.forkDb = n.forkDb → I n'
  openPending : ∀ n, I n → n.pendingTxSession = none → I n.openPending
  pendingState : ∀ n, I n → n.pendingTxSession ≠ none → n.db.stack ≠ []
  setRest : ∀ n r, I n → n.pendingTxSession ≠ none → I (n.setObjects (n.objects.setRest r))

namespace KeepsPending

variable {I : Node Name Tx Rest → Prop}

theorem ensurePending (hk : KeepsPending I) {n : Node Name Tx Rest} (h : I n) :
    I n.ensurePending ∧ n.ensurePending.pendingTxSession ≠ none := by
  unfold Node.ensurePending
  cases hp : n.pendingTxSession with
  | none => exact ⟨hk.openPending n h hp, by simp [Node.openPending]⟩
  | some base => exact ⟨by simpa using h, by simp [hp]⟩

theorem pushTransactionInner (hk : KeepsPending I) (ev : Evaluators Name Tx Rest) (tx : Tx)
    {n : Node Name Tx Rest} (h : I n) :
    (n.pushTransactionInner ev tx).Post I I := by
  obtain ⟨hI, hp⟩ := hk.ensurePending h
  rcases pushTransactionInner_cases ev tx n (hk.pendingState _ hI hp) with ⟨e, heq⟩ | ⟨r, heq⟩
  · rw [heq]
    exact hI
  · rw [heq]
    exact hk.congr _ _ (hk.setRest _ r hI hp) ⟨rfl, rfl, rfl, rfl⟩ rfl

theorem pushTransaction (hk : KeepsPending I) (ev : Evaluators Name Tx Rest) (tx : Tx)
    {n : Node Name Tx Rest} (h : I n) :
    (n.pushTransaction ev tx).Post I I := by
  unfold Node.pushTransaction
  split
  · exact hk.pushTransactionInner ev tx h
  · exact h

theorem restoreTransactions (hk : KeepsPending I) (ev : Evaluators Name Tx Rest)
    (txs : List Tx) {n : Node Name Tx Rest} (h : I n) :
    I (txs.foldl (restoreTransaction ev) n) := by
  induction txs generalizing n with
  | nil => exact h
  | cons tx txs ih =>
      refine ih ?_
      unfold restoreTransaction
      split
      · exact h
      · exact Result.post_state.mp (hk.pushTransactionInner ev tx h)

theorem restorePending (hk : KeepsPending I) (ev : Evaluators Name Tx Rest)
    (pending : List Tx) {n : Node Name Tx Rest} (h : I n) : I (n.restorePending ev pending) :=
  hk.restoreTransactions ev pending
    (hk.congr _ _ (hk.restoreTransactions ev n.poppedTx h) ⟨rfl, rfl, rfl, rfl⟩ rfl)

theorem takeTransaction (hk : KeepsPending I) (ev : Evaluators Name Tx Rest) (size time : Nat)
    {acc : Node Name Tx Rest × List Tx × Nat} (tx : Tx) (h : I acc.1)
    (hp : acc.1.pendingTxSession ≠ none) :
    I (Node.takeTransaction ev size time acc tx).1 ∧
      (Node.takeTransaction ev size time acc tx).1.pendingTxSession =
        acc.1.pendingTxSession := by
  obtain ⟨n, taken, total⟩ := acc
  simp only at hp h
  unfold Node.takeTransaction
  simp only
  split
  · exact ⟨h, rfl⟩
  · split
    · exact ⟨h, rfl⟩
    · simp only [objects, SnapshotStack.startUndoSession_cur]
      split
      · refine ⟨hk.congr _ _ h ⟨?_, rfl, rfl, rfl⟩ rfl, rfl⟩
        simp [Node.undo, Node.setObjects]
      · rename_i r _
        refine ⟨hk.congr _ _ (hk.setRest n r h hp) ⟨?_, rfl, rfl, rfl⟩ rfl, rfl⟩
        simp [Node.setObjects, objects,
          SnapshotStack.squash_set_startUndoSession (hk.pendingState n h hp)]

/-- The session `_generate_block` rebuilds survives its loop. -/
theorem takeTransactions (hk : KeepsPending I) (ev : Evaluators Name Tx Rest)
    (size time : Nat) (txs : List Tx) {acc : Node Name Tx Rest × List Tx × Nat} (h : I acc.1)
    (hp : acc.1.pendingTxSession ≠ none) :
    I (txs.foldl (Node.takeTransaction ev size time) acc).1 ∧
      (txs.foldl (Node.takeTransaction ev size time) acc).1.pendingTxSession =
        acc.1.pendingTxSession := by
  induction txs generalizing acc with
  | nil => exact ⟨h, rfl⟩
  | cons tx txs ih =>
      obtain ⟨h1, h2⟩ := hk.takeTransaction ev size time tx h hp
      obtain ⟨h3, h4⟩ := ih h1 (h2 ▸ hp)
      exact ⟨h3, h4.trans h2⟩

end KeepsPending

variable [DecidableEq Name]

/-! ### Branches -/

/-- `J` is kept by applying a block in a session, and by undoing one as long
as the head is not yet the block `fork`. -/
structure KeepsBranch (ev : Evaluators Name Tx Rest) (fork : BlockId)
    (J : Node Name Tx Rest → Prop) : Prop where
  noPending : ∀ n, J n → n.pendingTxSession = none
  congr : ∀ n n', J n → SameDb n n' → J n'
  undo : ∀ n, J n → n.headBlockId ≠ fork → J n.undo
  applyInSession : ∀ b n, J n → (n.applyInSession ev b).Post J J

namespace KeepsBranch

variable {fork : BlockId} {J : Node Name Tx Rest → Prop}

omit [DecidableEq Name] in
theorem resetPending_eq {n : Node Name Tx Rest} (h : n.pendingTxSession = none) :
    n.resetPending = n := by
  rw [Node.resetPending, h]

theorem popBlock (hk : KeepsBranch ev fork J) (pinned : List (ForkItem Name Tx))
    {n : Node Name Tx Rest} (h : J n) (hfork : n.headBlockId ≠ fork) :
    (n.popBlock pinned).Post J J := by
  unfold Node.popBlock
  simp only [resetPending_eq (hk.noPending n h)]
  split
  · exact h
  · split
    · exact h
    · exact hk.congr _ _ (hk.undo _ h hfork) ⟨rfl, rfl, rfl, rfl⟩

theorem popUntil (hk : KeepsBranch ev fork J) (pinned : List (ForkItem Name Tx))
    {n : Node Name Tx Rest} (h : J n) : (n.popUntil pinned fork).Post J J := by
  refine Result.Post.imp (Result.whileLoop_post (I := J) (E := J) ?_ ?_ _ h) ?_ ?_
  · intro s hs hg
    exact hk.popBlock pinned hs (by simpa using hg)
  · exact fun s hs => hs
  · exact fun s hs => hs.1
  · exact fun s hs => hs

theorem recoverFork (hk : KeepsBranch ev fork J) (pinned bad : List (ForkItem Name Tx))
    (old : ForkDatabase.Branch Name Tx) {n : Node Name Tx Rest} (h : J n) :
    (n.recoverFork ev pinned bad old fork).Post J J := by
  refine Result.Post.andThen (hk.popUntil pinned (hk.congr _ _ h ⟨rfl, rfl, rfl, rfl⟩)) ?_
  intro s hs
  exact Result.forEach_post (fun item _ s hs => hk.applyInSession item.data s hs) hs

theorem pushBranch (hk : KeepsBranch ev fork J) (pinned : List (ForkItem Name Tx))
    (old : ForkDatabase.Branch Name Tx) (items : List (ForkItem Name Tx))
    {n : Node Name Tx Rest} (h : J n) :
    (n.pushBranch ev pinned old fork items).Post J J := by
  induction items generalizing n with
  | nil => exact h
  | cons item rest ih =>
      unfold Node.pushBranch
      have happly := hk.applyInSession item.data n h
      cases hr : n.applyInSession ev item.data with
      | ok n' =>
          rw [hr] at happly
          exact ih happly
      | error e n' =>
          rw [hr] at happly
          exact Result.Post.andThen (hk.recoverFork pinned (item :: rest) old happly)
            fun s hs => hs

end KeepsBranch

/-- The rule for `_push_block`: `J` fork-free for a block on top of the head,
and a `J` for the fork the block makes the node switch at. -/
theorem pushBlockInner_post {b : SignedBlock Name Tx} {n : Node Name Tx Rest}
    {Q : Node Name Tx Rest → Prop} (hcongr : ∀ n', SameDb n n' → Q n')
    (happly : ∀ n', SameDb n n' → (n'.applyInSession ev b).Post Q Q)
    (hQ : ∀ m m', Q m → SameDb m m' → Q m')
    (hswitch : ∀ f newHead first second last, n.forkDb.pushBlock b = .ok f →
      f.head = some newHead → newHead.previousId ≠ n.headBlockId → n.headBlockNum < newHead.num →
      f.fetchBranchFrom newHead.id n.headBlockId = .ok (first, second) →
      second.getLast? = some last →
      ∃ J, KeepsBranch ev last.previousId J ∧ J { n with forkDb := f } ∧ ∀ m, J m → Q m) :
    (n.pushBlockInner ev b).Post Q Q := by
  unfold pushBlockInner
  split
  · exact hcongr n ⟨rfl, rfl, rfl, rfl⟩
  · rename_i f hf
    have hsame : SameDb n { n with forkDb := f } := ⟨rfl, rfl, rfl, rfl⟩
    simp only
    split
    · exact hcongr _ hsame
    · rename_i newHead hhead
      split
      · rename_i hprev
        split
        · rename_i hnum
          unfold switchForks
          split
          · exact hcongr _ hsame
          · rename_i first second hbranch
            split
            · exact hcongr _ hsame
            · rename_i last hlast
              obtain ⟨J, hk, hJ, himp⟩ :=
                hswitch f newHead first second last hf hhead hprev hnum hbranch hlast
              refine Result.Post.imp (Result.Post.andThen (hk.popUntil _ hJ) fun s hs =>
                hk.pushBranch _ _ _ hs) himp himp
        · exact hcongr _ hsame
      · exact Result.Post.onError (happly _ hsame) fun s hs => hQ _ _ hs ⟨rfl, rfl, rfl, rfl⟩

/-! ### Entry points -/

/-- `I` holds between calls, `J` inside `push_block`, where no pending
session is open. -/
structure KeepsReset (I J : Node Name Tx Rest → Prop) : Prop where
  pending : KeepsPending I
  noPending : ∀ n, J n → n.pendingTxSession = none
  weaken : ∀ n, J n → I n
  reset : ∀ n, I n → J n.resetPending

namespace KeepsReset

variable {I J : Node Name Tx Rest → Prop}

omit [DecidableEq Name] in
theorem clearPending (hk : KeepsReset I J) {n : Node Name Tx Rest} (h : I n) :
    J n.clearPending :=
  hk.reset _ (hk.pending.congr _ _ h ⟨rfl, rfl, rfl, rfl⟩ rfl)

/-- The rule for `push_block`, from what `_push_block` does. -/
theorem pushBlock (hk : KeepsReset I J) (b : SignedBlock Name Tx) {n : Node Name Tx Rest}
    (h : (n.clearPending.pushBlockInner ev b).Post J J) : (n.pushBlock ev b).Post I I := by
  refine Result.Post.onExit h ?_ ?_
  · exact fun s hs => hk.pending.restorePending ev _ (hk.weaken s hs)
  · exact fun s hs => hk.pending.restorePending ev _ (hk.weaken s hs)

omit [DecidableEq Name] in
theorem assembleBlock (hk : KeepsReset I J) (ev : Evaluators Name Tx Rest)
    (headerSize time : Nat) (owner : Name) (key : Nat) {n : Node Name Tx Rest} (h : I n) :
    J (n.assembleBlock ev headerSize time owner key).1 := by
  have hreset := hk.reset n h
  have hopen : I n.resetPending.openPending :=
    hk.pending.openPending _ (hk.weaken _ hreset) (hk.noPending _ hreset)
  have hp : n.resetPending.openPending.pendingTxSession ≠ none := by simp [Node.openPending]
  have htake := hk.pending.takeTransactions ev (ev.maximumBlockSize n.objects.rest) time n.pendingTx
    (show I (n.resetPending.openPending, ([] : List Tx), headerSize).1 from hopen) hp
  exact hk.reset _ htake.1

/-- The rule for `generate_block`, from what `push_block` does with the block. -/
theorem generateBlock (hk : KeepsReset I J) (headerSize time : Nat) (owner : Name) (key : Nat)
    {n : Node Name Tx Rest} (h : I n)
    (hpush : J (n.assembleBlock ev headerSize time owner key).1 →
      ((n.assembleBlock ev headerSize time owner key).1.pushBlock ev
        (n.assembleBlock ev headerSize time owner key).2).Post I I) :
    (n.generateBlock ev headerSize time owner key).Post I I := by
  have hassembled := hk.assembleBlock ev headerSize time owner key h
  unfold Node.generateBlock
  simp only
  split
  · exact h
  · split
    · exact h
    · split
      · exact h
      · split
        · exact h
        · split
          · exact hpush hassembled
          · exact hk.weaken _ hassembled

end KeepsReset

/-- `J` moreover goes through blocks and through undoing them. -/
structure Keeps (ev : Evaluators Name Tx Rest) (I J : Node Name Tx Rest → Prop) : Prop where
  base : KeepsReset I J
  branch : ∀ fork, KeepsBranch ev fork J

namespace Keeps

variable {I J : Node Name Tx Rest → Prop}

theorem popBlock (hk : Keeps ev I J) (pinned : List (ForkItem Name Tx)) {n : Node Name Tx Rest}
    (h : I n) : (n.popBlock pinned).Post J J := by
  have hJ := hk.base.reset n h
  unfold Node.popBlock
  simp only
  split
  · exact hJ
  · split
    · exact hJ
    · -- Some block other than the head serves as the fork not to pass.
      have hne : n.resetPending.headBlockId ≠ ⟨n.resetPending.headBlockId.num + 1, 0⟩ := by
        intro hc
        have := congrArg BlockId.num hc
        simp at this
      have hk' := hk.branch ⟨n.resetPending.headBlockId.num + 1, 0⟩
      exact hk'.congr _ _ (hk'.undo _ hJ hne) ⟨rfl, rfl, rfl, rfl⟩

theorem pushBlockInner (hk : Keeps ev I J) (b : SignedBlock Name Tx) {n : Node Name Tx Rest}
    (h : J n) : (n.pushBlockInner ev b).Post J J := by
  have hcongr := (hk.branch BlockId.zero).congr
  refine pushBlockInner_post (fun n' hs => hcongr _ _ h hs) ?_ hcongr ?_
  · exact fun n' hs => (hk.branch BlockId.zero).applyInSession b _ (hcongr _ _ h hs)
  · intro f _ _ _ last _ _ _ _ _ _
    exact ⟨J, hk.branch last.previousId, hcongr _ _ h ⟨rfl, rfl, rfl, rfl⟩, fun m hm => hm⟩

theorem pushBlock (hk : Keeps ev I J) (b : SignedBlock Name Tx) {n : Node Name Tx Rest}
    (h : I n) : (n.pushBlock ev b).Post I I :=
  hk.base.pushBlock b (hk.pushBlockInner b (hk.base.clearPending h))

theorem generateBlock (hk : Keeps ev I J) (headerSize time : Nat) (owner : Name) (key : Nat)
    {n : Node Name Tx Rest} (h : I n) :
    (n.generateBlock ev headerSize time owner key).Post I I :=
  hk.base.generateBlock headerSize time owner key h fun hJ =>
    hk.pushBlock _ (hk.base.weaken _ hJ)

/-- Every entry point but `confirm_block` keeps the invariant. -/
theorem step (hk : Keeps ev I J) (s : Step Name Tx) {n : Node Name Tx Rest} (h : I n)
    (hconfirm : ∀ b, s = .confirmBlock b → I (n.confirmBlock ev b).state) :
    I (n.step ev s) := by
  cases s with
  | pushBlock b => exact Result.post_state.mp (hk.pushBlock b h)
  | pushTransaction tx => exact Result.post_state.mp (hk.base.pending.pushTransaction ev tx h)
  | generateBlock headerSize time owner key =>
      exact Result.post_state.mp (hk.generateBlock headerSize time owner key h)
  | popBlock => exact hk.base.weaken _ (Result.post_state.mp (hk.popBlock [] h))
  | confirmBlock b => exact hconfirm b rfl

end Keeps

end Node

end Gamebank.Chain
