import Gamebank.Chain.ForkHead
import Gamebank.Chain.SkippedChecks
import Gamebank.Chain.Slots

/-!
# Reindexing and checkpoints

`reindex` wipes the object database and applies the blocks of the log again,
with most checks skipped and no undo session. It gives back the state that the
blocks had led to, but for the deduplication table, which is empty: the node
knows none of the transactions of the last hour (`reindex_restores`). No
checkpoints are configured here.

Up to the last checkpoint `apply_block` skips the same checks, whatever mask it
is given, and refuses a block that has the number of a checkpoint and another
id (`checkpoints_accept_iff`).
-/

namespace Gamebank.Chain

open Gamebank.Lib

universe u v w

variable {Name : Type u} {Tx : Type v} {Rest : Type w} {Inner : Type w} [DecidableEq Name]

/-! ## `apply_block` with a mask -/

namespace Objects

/-- `executes`, with the flags. -/
def executesWith (skip : SkipFlags) (ev : Evaluators Name Tx Rest) (o : Objects Name Rest)
    (b : SignedBlock Name Tx) : Bool :=
  match ev.prepare o b with
  | (_, some _) => false
  | (r, none) =>
      match (o.setRest r).validateBlockHeaderWith skip ev b with
      | .error _ => false
      | .ok () => (ev.execute (o.setRest r) b).2.isNone

end Objects

namespace Node

/-- `noteContract`, with the flags. -/
def noteContractWith (skip : SkipFlags) (ev : Evaluators Name Tx Rest) (b : SignedBlock Name Tx)
    (n : Node Name Tx Rest) : Node Name Tx Rest :=
  { n with
    contractBlock :=
      if n.objects.executesWith skip ev b then
        (b.blockNum, ⟨b.previous, b.id, ev.signee b⟩) ::
          n.contractBlock.filter fun e => e.1 ≠ b.blockNum
      else n.contractBlock }

omit [DecidableEq Name] in
/-- `update_last_irreversible_block`, with the flags. -/
def updateLastIrreversibleBlockWith (skip : SkipFlags) (ev : Evaluators Name Tx Rest)
    (n : Node Name Tx Rest) : Outcome Name Tx Rest :=
  match n.objects.newLastIrreversible ev with
  | .error e => .error e n
  | .ok lib =>
      let n := n.setObjects { n.objects with lastIrreversibleBlockNum := lib }
      if skip.blockLog then
        .ok { n with
          db := n.db.commit lib
          committed := max n.committed (min lib n.headBlockNum)
          forkDb := n.forkDb.setMaxSize ((sub32 n.headBlockNum lib + 1) % uint32Size) }
      else n.settleIrreversible

/-- `apply_block`, with the flags, of a node without checkpoints; what they change
is `Checkpoints.flagsFor`. -/
def applyBlockWith (skip : SkipFlags) (ev : Evaluators Name Tx Rest) (b : SignedBlock Name Tx)
    (n : Node Name Tx Rest) : Outcome Name Tx Rest :=
  let n := n.noteContractWith skip ev b
  match n.objects.applyHeaderWith skip ev b with
  | (o, some e) => .error e (n.setObjects o)
  | (o, none) =>
      ((n.setObjects o).updateLastIrreversibleBlockWith skip ev).andThen (finishBlock ev b)

/-! ## `reindex` -/

omit [DecidableEq Name] in
/-- The node after `wipe` and `open`, with the logs as they are on disk. -/
def wiped (genesis : Objects Name Rest) (blockLog : List (SignedBlock Name Tx))
    (contractLog : List SignedContract) : Node Name Tx Rest where
  db := { cur := genesis, stack := [], revision := 0 }
  forkDb := ForkDatabase.empty
  blockLog := blockLog
  contractLog := contractLog
  pendingTxSession := none
  pendingTx := []
  poppedTx := []
  committed := 0

/-- The loop of `reindex`: blocks from the log up to the number `last`. -/
def replayBlocks (ev : Evaluators Name Tx Rest) (last : Nat) :
    List (SignedBlock Name Tx) → Node Name Tx Rest → Outcome Name Tx Rest
  | [], n => .error (.assertion "read past the end of the block log") n
  | b :: rest, n =>
      (n.applyBlockWith .reindexing ev b).andThen fun n =>
        if b.blockNum = last then .ok n else replayBlocks ev last rest n

/-- The number of the last block to replay. -/
def replayEnd (stopReplayAt : Nat) (head : SignedBlock Name Tx) : Nat :=
  if 0 < stopReplayAt ∧ stopReplayAt < head.blockNum then stopReplayAt else head.blockNum

end Node

/-- Nothing is recorded of what happened before the node was opened. -/
def Objects.reopened (o : Objects Name (Guarded Name Tx Inner)) :
    Objects Name (Guarded Name Tx Inner) :=
  { o with applied := [], rest := { o.rest with blocks := [] } }

namespace Node

/-- After the loop: the revision is the head's number, and the fork database
starts from the head of the log. -/
def startFromLog (head : SignedBlock Name Tx) (n : Node Name Tx (Guarded Name Tx Inner)) :
    Node Name Tx (Guarded Name Tx Inner) :=
  { n with
    db := { n.db with cur := n.objects.reopened, revision := n.headBlockNum }
    forkDb := n.forkDb.startBlock head
    committed := n.headBlockNum }

/-- `reindex`, of a node without checkpoints. -/
def reindex (h : Handlers Name Tx Inner)
    (checkMerkle : SignedBlock Name Tx → Except ChainException Unit)
    (genesis : Objects Name (Guarded Name Tx Inner)) (blockLog : List (SignedBlock Name Tx))
    (contractLog : List SignedContract) (stopReplayAt : Nat) :
    Outcome Name Tx (Guarded Name Tx Inner) :=
  match blockLog.getLast? with
  | none =>
      .error (.assertion "No blocks in block log. Cannot reindex an empty chain.")
        (wiped genesis blockLog contractLog)
  | some head =>
      ((wiped genesis blockLog contractLog).replayBlocks
        (h.evaluatorsWith .reindexing checkMerkle) (replayEnd stopReplayAt head) blockLog).andThen
        fun n => .ok (n.startFromLog head)

/-- The node in the middle of the loop. -/
structure Replaying (n : Node Name Tx Rest) (o : Objects Name Rest)
    (blockLog : List (SignedBlock Name Tx)) (contractLog : List SignedContract) : Prop where
  objects : n.objects = o
  stack : n.db.stack = []
  pendingTxSession : n.pendingTxSession = none
  pendingTx : n.pendingTx = []
  poppedTx : n.poppedTx = []
  blockLog : n.blockLog = blockLog
  contractLog : n.contractLog = contractLog

section Loop

variable {ev : Evaluators Name Tx Rest} {n : Node Name Tx Rest} {o o' : Objects Name Rest}
  {b : SignedBlock Name Tx} {blockLog : List (SignedBlock Name Tx)}
  {contractLog : List SignedContract} {skip : SkipFlags}

omit [DecidableEq Name] in
theorem Replaying.setObjects (hn : Replaying n o blockLog contractLog) (p : Objects Name Rest) :
    Replaying (n.setObjects p) p blockLog contractLog :=
  ⟨rfl, hn.stack, hn.pendingTxSession, hn.pendingTx, hn.poppedTx, hn.blockLog, hn.contractLog⟩

omit [DecidableEq Name] in
theorem Replaying.finishBlock (hn : Replaying n o blockLog contractLog) {r : Rest}
    (hfinish : ev.finish o b = (r, none)) :
    ∃ m, Node.finishBlock ev b n = .ok m ∧ Replaying m (o.setRest r) blockLog contractLog := by
  obtain rfl := hn.objects
  unfold Node.finishBlock
  simp only [hfinish]
  exact ⟨_, rfl, hn.setObjects _⟩

omit [DecidableEq Name] in
/-- Without undo states there is nothing to commit. -/
theorem Replaying.updateLastIrreversibleBlockWith (hlog : skip.blockLog = true)
    (hn : Replaying n o blockLog contractLog) {lib : Nat}
    (hlib : o.newLastIrreversible ev = .ok lib) :
    ∃ m, n.updateLastIrreversibleBlockWith skip ev = .ok m ∧
      Replaying m { o with lastIrreversibleBlockNum := lib } blockLog contractLog := by
  obtain rfl := hn.objects
  have hstack : (n.db.commit lib).stack = [] := by
    show n.db.stack.rdropWhile _ = []
    rw [hn.stack]
    rfl
  unfold Node.updateLastIrreversibleBlockWith
  simp only [hlib, hlog, if_true]
  exact ⟨_, rfl, rfl, hstack, hn.pendingTxSession, hn.pendingTx, hn.poppedTx, hn.blockLog,
    hn.contractLog⟩

/-- A block that goes through on the objects goes through in the loop. -/
theorem Replaying.applyBlockWith (hlog : skip.blockLog = true)
    (hn : Replaying n o blockLog contractLog) (hok : o.afterBlockWith skip ev b = .ok o') :
    ∃ m, n.applyBlockWith skip ev b = .ok m ∧ Replaying m o' blockLog contractLog := by
  have hnoted : Replaying (n.noteContractWith skip ev b) o blockLog contractLog :=
    ⟨hn.objects, hn.stack, hn.pendingTxSession, hn.pendingTx, hn.poppedTx, hn.blockLog,
      hn.contractLog⟩
  unfold Objects.afterBlockWith at hok
  unfold Node.applyBlockWith
  simp only [hnoted.objects]
  rcases hheader : o.applyHeaderWith skip ev b with ⟨p, _ | e⟩
  · simp only [hheader] at hok ⊢
    cases hlib : p.newLastIrreversible ev with
    | error e => simp [hlib] at hok
    | ok lib =>
        simp only [hlib] at hok
        rcases hfinish : ev.finish { p with lastIrreversibleBlockNum := lib } b with ⟨r, _ | e⟩
        · simp only [hfinish, Except.ok.injEq] at hok
          subst hok
          obtain ⟨m, hm, hsettled⟩ :=
            (hnoted.setObjects p).updateLastIrreversibleBlockWith hlog hlib
          obtain ⟨m', hm', hfinished⟩ := hsettled.finishBlock hfinish
          refine ⟨m', ?_, hfinished⟩
          rw [hm, Result.andThen_ok]
          exact hm'
        · simp [hfinish] at hok
  · simp [hheader] at hok

end Loop

end Node

/-! ## The state comes back -/

namespace Objects

/-- The head after a block. -/
theorem head_of_afterBlock {ev : Evaluators Name Tx Rest} {o o' : Objects Name Rest}
    {b : SignedBlock Name Tx} (h : o.afterBlock ev b = .ok o') :
    o'.headBlockNumber = b.blockNum ∧ o'.headBlockId = b.id ∧ b.previous = o.headBlockId := by
  obtain ⟨r₀, r₁, r₂, r₃, lib, -, hvalid, -, rfl⟩ := stages_of_afterBlock h
  have hprev := previous_of_validateBlockHeader hvalid
  exact ⟨updateSigningWitness_headBlockNumber _ _, updateSigningWitness_headBlockId _ _, hprev⟩

end Objects

variable {h : Handlers Name Tx Inner}
  {checkMerkle : SignedBlock Name Tx → Except ChainException Unit}
  {o : Objects Name (Guarded Name Tx Inner)}
  {chain : List (SignedBlock Name Tx × Objects Name (Guarded Name Tx Inner))}

/-- The blocks of a chain are numbered on from the head. -/
theorem Objects.Accepted.blockNum {ev : Evaluators Name Tx Rest} {o : Objects Name Rest}
    {chain : List (SignedBlock Name Tx × Objects Name Rest)} (hchain : Accepted ev o chain)
    (hid : o.headBlockId.num = o.headBlockNumber) (i : Nat)
    {e : SignedBlock Name Tx × Objects Name Rest} (hi : chain[i]? = some e) :
    e.1.blockNum = o.headBlockNumber + i + 1 ∧ e.2.headBlockNumber = e.1.blockNum ∧
      e.2.headBlockId = e.1.id := by
  induction chain generalizing o i with
  | nil => simp at hi
  | cons c rest ih =>
      obtain ⟨hnum, hid', hprev⟩ := Objects.head_of_afterBlock hchain.1
      have hc : c.1.blockNum = o.headBlockNumber + 1 := by
        rw [SignedBlock.blockNum, hprev, hid]
      cases i with
      | zero =>
          obtain rfl : c = e := by simpa using hi
          exact ⟨hc, hnum, hid'⟩
      | succ i =>
          rw [List.getElem?_cons_succ] at hi
          have hnext := ih hchain.2 (by rw [hid', hnum]; rfl) i hi
          rw [hnum, hc] at hnext
          exact ⟨by omega, hnext.2⟩

namespace Node

/-- The loop replays the first `count` blocks. -/
theorem replayBlocks_accepted {blockLog : List (SignedBlock Name Tx)}
    {contractLog : List SignedContract} {n : Node Name Tx (Guarded Name Tx Inner)} {i : Nat}
    {e : SignedBlock Name Tx × Objects Name (Guarded Name Tx Inner)}
    (hn : Replaying n (o.withTable []) blockLog contractLog)
    (hid : o.headBlockId.num = o.headBlockNumber)
    (hchain : Objects.Accepted (h.withMerkle checkMerkle).evaluators o chain)
    (hi : chain[i]? = some e) :
    ∃ m, n.replayBlocks (h.evaluatorsWith .reindexing checkMerkle) (o.headBlockNumber + i + 1)
        (chain.map Prod.fst) = .ok m ∧
      Replaying m (e.2.withTable []) blockLog contractLog := by
  induction chain generalizing o n i with
  | nil => simp at hi
  | cons c rest ih =>
      obtain ⟨hnum, hid', hprev⟩ := Objects.head_of_afterBlock hchain.1
      have hc : c.1.blockNum = o.headBlockNumber + 1 := by
        rw [SignedBlock.blockNum, hprev, hid]
      have hthin : Thins [] o.rest.transactions := ⟨List.nil_subset _, List.Pairwise.nil⟩
      obtain ⟨l, hafter, -, hempty⟩ :=
        Handlers.afterBlockWith_of_afterBlock .reindexing hthin hchain.1
      obtain rfl := hempty rfl rfl
      obtain ⟨m, hm, hreplayed⟩ := hn.applyBlockWith rfl hafter
      rw [List.map_cons, replayBlocks, hm, Result.andThen_ok]
      cases i with
      | zero =>
          obtain rfl : c = e := by simpa using hi
          rw [if_pos (by rw [hc])]
          exact ⟨m, rfl, hreplayed⟩
      | succ i =>
          rw [List.getElem?_cons_succ] at hi
          rw [if_neg (by omega)]
          obtain ⟨m', hm', hlast⟩ := ih hreplayed (by rw [hid', hnum]; rfl) hchain.2 hi
          refine ⟨m', ?_, hlast⟩
          rw [← hm', hnum, hc]
          congr 1
          omega

/-- **A reindex gives the state back.** Replaying the log of a chain that was
accepted with all checks goes through, up to the block asked for, and opens a
node whose objects are those that this block had led to, with an empty
deduplication table. The fork database starts from the head of the log in any
case. -/
theorem reindex_restores (h : Handlers Name Tx Inner)
    (checkMerkle : SignedBlock Name Tx → Except ChainException Unit)
    (genesis : Objects Name (Guarded Name Tx Inner)) (hnum : genesis.headBlockNumber = 0)
    (hid : genesis.headBlockId.num = 0) (htable : genesis.rest.transactions = [])
    (hchain : Objects.Accepted (h.withMerkle checkMerkle).evaluators genesis chain)
    (contractLog : List SignedContract) (stopReplayAt i : Nat)
    {e last : SignedBlock Name Tx × Objects Name (Guarded Name Tx Inner)}
    (hlast : chain.getLast? = some last) (hi : chain[i]? = some e)
    (hstop : i + 1 = if 0 < stopReplayAt ∧ stopReplayAt < chain.length then stopReplayAt
      else chain.length) :
    ∃ n, reindex h checkMerkle genesis (chain.map Prod.fst) contractLog stopReplayAt = .ok n ∧
      n.Opened ∧ n.objects = (e.2.withTable []).reopened ∧
        n.blockLog = chain.map Prod.fst ∧ n.contractLog = contractLog ∧
          n.forkDb.head.map ForkItem.data = some last.1 := by
  have hgenesis : genesis.withTable [] = genesis := by
    show genesis.setRest (genesis.rest.withTable []) = genesis
    rw [← htable]
    rfl
  have hidNum : genesis.headBlockId.num = genesis.headBlockNumber := hid.trans hnum.symm
  have hstart : Replaying (wiped genesis (chain.map Prod.fst) contractLog)
      (genesis.withTable []) (chain.map Prod.fst) contractLog :=
    ⟨hgenesis.symm, rfl, rfl, rfl, rfl, rfl, rfl⟩
  have hlength : last.1.blockNum = chain.length := by
    rw [List.getLast?_eq_getElem?] at hlast
    have hpos : chain.length ≠ 0 := by
      rintro hzero
      simp [List.length_eq_zero_iff.mp hzero] at hlast
    have hblock := (hchain.blockNum hidNum _ hlast).1
    omega
  have hend : replayEnd stopReplayAt last.1 = genesis.headBlockNumber + i + 1 := by
    rw [replayEnd, hlength, hnum, hstop.symm]
    omega
  obtain ⟨m, hm, hreplayed⟩ := replayBlocks_accepted hstart hidNum hchain hi
  have hhead := (hchain.blockNum hidNum i hi).2
  have hmnum : m.headBlockNum = e.1.blockNum := by
    show m.objects.headBlockNumber = _
    rw [hreplayed.objects]
    exact hhead.1
  have hmid : m.objects.headBlockId = e.1.id := by
    rw [hreplayed.objects]
    exact hhead.2
  have hopened : (m.startFromLog last.1).Opened := by
    refine ⟨hreplayed.stack, rfl, hreplayed.pendingTxSession, hreplayed.pendingTx,
      hreplayed.poppedTx, rfl, ?_, rfl⟩
    show m.objects.headBlockId.num = m.headBlockNum
    rw [hmid, hmnum]
    rfl
  refine ⟨m.startFromLog last.1, ?_, hopened, ?_, hreplayed.blockLog, hreplayed.contractLog, rfl⟩
  · have hloghead : (chain.map Prod.fst).getLast? = some last.1 := by
      rw [List.getLast?_map, hlast]
      rfl
    unfold reindex
    simp only [hloghead]
    rw [hend, hm, Result.andThen_ok]
  · show m.objects.reopened = _
    rw [hreplayed.objects]

end Node

/-! ## Checkpoints -/

/-- `_checkpoints`, in the order of the numbers. -/
abbrev Checkpoints := List (Nat × BlockId)

namespace Checkpoints

/-- The id of the checkpoint with this number, if checkpoints are in use. -/
def idAt (checkpoints : Checkpoints) (blockNum : Nat) : Option BlockId :=
  match checkpoints.getLast? with
  | none => none
  | some (_, id) =>
      if id = BlockId.zero then none
      else (checkpoints.find? fun c => c.1 = blockNum).map Prod.snd

/-- The block does not contradict a checkpoint. -/
def Admits (checkpoints : Checkpoints) (b : SignedBlock Name Tx) : Prop :=
  ∀ id ∈ checkpoints.idAt b.blockNum, b.id = id

instance (checkpoints : Checkpoints) (b : SignedBlock Name Tx) :
    Decidable (checkpoints.Admits b) :=
  inferInstanceAs (Decidable (∀ id ∈ checkpoints.idAt b.blockNum, b.id = id))

/-- The flags with which `apply_block` goes on. -/
def flagsFor (checkpoints : Checkpoints) (skip : SkipFlags) (b : SignedBlock Name Tx) :
    Except ChainException SkipFlags :=
  match checkpoints.getLast? with
  | none => .ok skip
  | some (num, id) =>
      if id = BlockId.zero then .ok skip
      else if checkpoints.Admits b then
        .ok (if b.blockNum ≤ num then .checkpointed else skip)
      else .error (.assertion "Block did not match checkpoint")

/-- Blocks applied one after the other, with the mask `skip_nothing`. -/
def applyBlocks (checkpoints : Checkpoints) (h : Handlers Name Tx Inner)
    (checkMerkle : SignedBlock Name Tx → Except ChainException Unit) :
    List (SignedBlock Name Tx) → Objects Name (Guarded Name Tx Inner) →
      Except ChainException (Objects Name (Guarded Name Tx Inner))
  | [], o => .ok o
  | b :: rest, o =>
      match checkpoints.flagsFor .nothing b with
      | .error e => .error e
      | .ok skip =>
          match o.afterBlockWith skip (h.evaluatorsWith skip checkMerkle) b with
          | .error e => .error e
          | .ok o' => applyBlocks checkpoints h checkMerkle rest o'

variable {checkpoints : Checkpoints}

omit [DecidableEq Name] in
theorem flagsFor_of_admits (skip : SkipFlags) {b : SignedBlock Name Tx}
    (hb : checkpoints.Admits b) : ∃ flags, checkpoints.flagsFor skip b = .ok flags := by
  unfold flagsFor
  cases checkpoints.getLast? with
  | none => exact ⟨skip, rfl⟩
  | some last =>
      by_cases hzero : last.2 = BlockId.zero
      · exact ⟨skip, if_pos hzero⟩
      · exact ⟨_, (if_neg hzero).trans (if_pos hb)⟩

omit [DecidableEq Name] in
theorem admits_of_flagsFor {skip flags : SkipFlags} {b : SignedBlock Name Tx}
    (hflags : checkpoints.flagsFor skip b = .ok flags) : checkpoints.Admits b := by
  unfold flagsFor at hflags
  cases hlast : checkpoints.getLast? with
  | none =>
      intro id hid
      simp [idAt, hlast] at hid
  | some last =>
      by_cases hzero : last.2 = BlockId.zero
      · intro id hid
        simp [idAt, hlast, hzero] at hid
      · simp only [hlast, if_neg hzero] at hflags
        by_cases hb : checkpoints.Admits b
        · exact hb
        · simp [if_neg hb] at hflags

/-- **What checkpoints change.** The blocks of a chain that is accepted with
all checks go through with checkpoints exactly if none contradicts one; they
leave the same objects but for a thinner deduplication table. -/
theorem accept_iff (checkpoints : Checkpoints) (h : Handlers Name Tx Inner)
    (checkMerkle : SignedBlock Name Tx → Except ChainException Unit)
    {l : List TransactionObject} (hl : Thins l o.rest.transactions)
    (hchain : Objects.Accepted (h.withMerkle checkMerkle).evaluators o chain) :
    ((∃ o', checkpoints.applyBlocks h checkMerkle (chain.map Prod.fst) (o.withTable l) = .ok o') ↔
      ∀ e ∈ chain, checkpoints.Admits e.1) ∧
    ∀ o', checkpoints.applyBlocks h checkMerkle (chain.map Prod.fst) (o.withTable l) = .ok o' →
      ∃ l', o' = ((chain.getLast?.map Prod.snd).getD o).withTable l' ∧
        Thins l' ((chain.getLast?.map Prod.snd).getD o).rest.transactions := by
  induction chain generalizing o l with
  | nil =>
      refine ⟨⟨fun _ => by simp, fun _ => ⟨_, rfl⟩⟩, ?_⟩
      rintro o' ho'
      exact ⟨l, (Except.ok.inj ho').symm, hl⟩
  | cons c rest ih =>
      by_cases hc : checkpoints.Admits c.1
      · obtain ⟨flags, hflags⟩ := flagsFor_of_admits .nothing hc
        obtain ⟨l₁, hafter, hl₁, -⟩ := Handlers.afterBlockWith_of_afterBlock flags hl hchain.1
        have hstep : checkpoints.applyBlocks h checkMerkle ((c :: rest).map Prod.fst)
            (o.withTable l) =
            checkpoints.applyBlocks h checkMerkle (rest.map Prod.fst) (c.2.withTable l₁) := by
          rw [List.map_cons, applyBlocks]
          simp only [hflags, hafter]
        obtain ⟨hiff, hsame⟩ := ih hl₁ hchain.2
        have hend : ((c :: rest).getLast?.map Prod.snd).getD o =
            (rest.getLast?.map Prod.snd).getD c.2 := by
          rw [List.getLast?_cons]
          cases rest.getLast? <;> rfl
        rw [hstep, hend]
        refine ⟨?_, hsame⟩
        rw [hiff, List.forall_mem_cons]
        exact ⟨fun hrest => ⟨hc, hrest⟩, And.right⟩
      · have hstep : ∀ o', checkpoints.applyBlocks h checkMerkle ((c :: rest).map Prod.fst)
            (o.withTable l) ≠ .ok o' := by
          intro o' ho'
          rw [List.map_cons, applyBlocks] at ho'
          cases hflags : checkpoints.flagsFor .nothing c.1 with
          | error e => simp [hflags] at ho'
          | ok flags => exact hc (admits_of_flagsFor hflags)
        refine ⟨⟨?_, fun hall => ?_⟩, fun o' ho' => absurd ho' (hstep o')⟩
        · rintro ⟨o', ho'⟩
          exact absurd ho' (hstep o')
        · exact absurd (hall c List.mem_cons_self) hc

end Checkpoints

/-! ### A chain of two blocks -/

/-- The blocks with the objects each leads to, up to the first that fails. -/
def acceptedFrom (ev : Evaluators Name Tx Rest) (o : Objects Name Rest) :
    List (SignedBlock Name Tx) → List (SignedBlock Name Tx × Objects Name Rest)
  | [] => []
  | b :: rest =>
      match o.afterBlock ev b with
      | .error _ => []
      | .ok o' => (b, o') :: acceptedFrom ev o' rest

theorem acceptedFrom_accepted (ev : Evaluators Name Tx Rest) (o : Objects Name Rest)
    (blocks : List (SignedBlock Name Tx)) : Objects.Accepted ev o (acceptedFrom ev o blocks) := by
  induction blocks generalizing o with
  | nil => trivial
  | cons b rest ih =>
      unfold acceptedFrom
      cases hb : o.afterBlock ev b with
      | error e => trivial
      | ok o' => exact ⟨hb, ih o'⟩

def soloGenesis : Objects Nat (Guarded Nat (Nat × Nat) Unit) where
  headBlockNumber := 0
  headBlockId := BlockId.zero
  time := 0
  currentAslot := 0
  lastIrreversibleBlockNum := 0
  lastConfirmedBlockNum _ := 0
  lastAslot _ := 0
  applied := []
  rest := ⟨[], [], ()⟩

/-- Every block has the merkle root of its transactions. -/
def anyRoot : SignedBlock Nat (Nat × Nat) → Except ChainException Unit := fun _ => .ok ()

/-- Two blocks of the single witness, the second with a transaction. -/
def soloChain : List (SignedBlock Nat (Nat × Nat) × Objects Nat (Guarded Nat (Nat × Nat) Unit)) :=
  acceptedFrom (soloHandlers.withMerkle anyRoot).evaluators soloGenesis
    [guardedBlock 1 0 1 [], guardedBlock 2 1 2 [(1, 60)]]

/-- After the reindex the transaction of the second block is not known. -/
theorem soloChain_restored : ∃ e n, soloChain[1]? = some e ∧
    e.2.rest.isKnownTransaction 1 = true ∧
      Node.reindex soloHandlers anyRoot soloGenesis (soloChain.map Prod.fst) [] 0 = .ok n ∧
        n.Opened ∧ n.objects = (e.2.withTable []).reopened ∧
          n.objects.rest.isKnownTransaction 1 = false := by
  have hlength : soloChain.length = 2 := by
    decide +kernel
  obtain ⟨e, he⟩ : ∃ e, soloChain[1]? = some e :=
    ⟨_, List.getElem?_eq_getElem (by rw [hlength]; decide)⟩
  have hlast : soloChain.getLast? = some e := by
    rw [List.getLast?_eq_getElem?, hlength]
    exact he
  have hknown : (soloChain[1]?.map fun e => e.2.rest.isKnownTransaction 1) = some true := by
    decide +kernel
  rw [he] at hknown
  obtain ⟨n, hn, hopened, hobjects, -⟩ := Node.reindex_restores soloHandlers anyRoot soloGenesis
    rfl rfl rfl (acceptedFrom_accepted _ _ _) [] 0 1 hlast he
    ((if_neg (by omega)).trans hlength).symm
  refine ⟨e, n, he, Option.some.inj hknown, hn, hopened, hobjects, ?_⟩
  rw [hobjects]
  rfl

/-- A checkpoint at the second block, and one that contradicts it. -/
theorem soloChain_checkpoints :
    (∃ o', Checkpoints.applyBlocks [(2, ⟨2, 2⟩)] soloHandlers anyRoot (soloChain.map Prod.fst)
      (soloGenesis.withTable []) = .ok o') ∧
    ¬∃ o', Checkpoints.applyBlocks [(2, ⟨2, 3⟩)] soloHandlers anyRoot (soloChain.map Prod.fst)
      (soloGenesis.withTable []) = .ok o' := by
  have hthin : Thins [] soloGenesis.rest.transactions := ⟨List.nil_subset _, List.Pairwise.nil⟩
  have haccepted := acceptedFrom_accepted (soloHandlers.withMerkle anyRoot).evaluators soloGenesis
    [guardedBlock 1 0 1 [], guardedBlock 2 1 2 [(1, 60)]]
  have hblocks :
      soloChain.map Prod.fst = [guardedBlock 1 0 1 [], guardedBlock 2 1 2 [(1, 60)]] := by
    decide +kernel
  have hall : ∀ checkpoints : Checkpoints, (∀ e ∈ soloChain, checkpoints.Admits e.1) ↔
      ∀ b ∈ [guardedBlock 1 0 1 [], guardedBlock 2 1 2 [(1, 60)]], checkpoints.Admits b := by
    intro checkpoints
    rw [← hblocks, List.forall_mem_map]
  constructor
  · refine (Checkpoints.accept_iff [(2, ⟨2, 2⟩)] soloHandlers anyRoot hthin haccepted).1.mpr ?_
    rw [show acceptedFrom _ _ _ = soloChain from rfl, hall]
    decide
  · rw [show soloChain.map Prod.fst = (acceptedFrom (soloHandlers.withMerkle anyRoot).evaluators
      soloGenesis [guardedBlock 1 0 1 [], guardedBlock 2 1 2 [(1, 60)]]).map Prod.fst from rfl,
      (Checkpoints.accept_iff [(2, ⟨2, 3⟩)] soloHandlers anyRoot hthin haccepted).1]
    rw [show acceptedFrom _ _ _ = soloChain from rfl, hall]
    decide

end Gamebank.Chain
