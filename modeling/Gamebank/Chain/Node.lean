import Gamebank.Chain.ForkDatabase
import Gamebank.Chain.Objects
import Gamebank.Lib.Runs
import Gamebank.Lib.SnapshotStack

/-!
# The node: `push_block`, `push_transaction`, `generate_block`, `pop_block`, `confirm_block`

The entry points of `database.cpp` over the object database with its undo
stack, the fork database, the block log and the contract log. The object database is a
snapshot stack (`Gamebank.Chainbase.Refinement` relates it to the
differences chainbase keeps): all its indices share one revision.

An exception leaves the node as far as the code got. A session opened on
the C++ stack is undone when the exception passes it (`withSession`); what
is undone then is the **newest** state of the undo stack, whichever that
is, and nothing at all when the stack is empty.

Three fields record history that the code itself has no variable for and
no operation reads: the objects on which the pending session was opened,
the last block whose undo state was dropped by `commit`, and, in the
objects, the ids of the blocks applied.
-/

namespace Gamebank.Chain

open Gamebank.Lib

universe u v w

/-- The parts of `database` the chain logic works on. -/
structure Node (Name : Type u) (Tx : Type v) (Rest : Type w) where
  db : SnapshotStack (Objects Name Rest)
  forkDb : ForkDatabase Name Tx
  /-- The block log, oldest block first. -/
  blockLog : List (SignedBlock Name Tx)
  /-- `_contract_block`: entries that wait for their block to be logged. -/
  contractBlock : List (Nat × SignedContract) := []
  /-- The contract log, oldest entry first. -/
  contractLog : List SignedContract := []
  /-- `_pending_tx_session`: `some o` while it is open, `o` being the objects
  on which it was opened. -/
  pendingTxSession : Option (Objects Name Rest)
  pendingTx : List Tx
  poppedTx : List Tx
  /-- The last block of the chain committed so far. -/
  committed : Nat

variable {Name : Type u} {Tx : Type v} {Rest : Type w}

/-- How an entry point ends. -/
abbrev Outcome (Name : Type u) (Tx : Type v) (Rest : Type w) :=
  Result ChainException (Node Name Tx Rest)

namespace Node

/-! ## Reading -/

def objects (n : Node Name Tx Rest) : Objects Name Rest := n.db.cur

def headBlockNum (n : Node Name Tx Rest) : Nat := n.objects.headBlockNumber

def headBlockId (n : Node Name Tx Rest) : BlockId := n.objects.headBlockId

/-- The number of the last block in the log, zero for an empty log. -/
def logHeadNum (n : Node Name Tx Rest) : Nat :=
  match n.blockLog.getLast? with
  | none => 0
  | some b => b.blockNum

/-- `block_log::read_block_by_num`. -/
def readBlockByNum (n : Node Name Tx Rest) (num : Nat) : Option (SignedBlock Name Tx) :=
  n.blockLog.find? fun b => b.blockNum = num

/-- `fetch_block_by_id`: the fork database first, then the block log. -/
def fetchBlockById (n : Node Name Tx Rest) (id : BlockId) : Option (SignedBlock Name Tx) :=
  match n.forkDb.fetchBlock id with
  | some item => some item.data
  | none =>
      match n.readBlockByNum id.num with
      | some b => if b.id = id then some b else none
      | none => none

/-! ## Sessions -/

def setObjects (n : Node Name Tx Rest) (o : Objects Name Rest) : Node Name Tx Rest :=
  { n with db := n.db.set o }

def undo (n : Node Name Tx Rest) : Node Name Tx Rest := { n with db := n.db.undo }

/-- A body inside `start_undo_session`: pushed at a normal end, undone by the
session's destructor when an exception passes. -/
def withSession (body : Node Name Tx Rest → Outcome Name Tx Rest) (n : Node Name Tx Rest) :
    Outcome Name Tx Rest :=
  (body { n with db := n.db.startUndoSession }).onError undo

/-- `_pending_tx_session.reset()`. -/
def resetPending (n : Node Name Tx Rest) : Node Name Tx Rest :=
  match n.pendingTxSession with
  | none => n
  | some _ => { n.undo with pendingTxSession := none }

/-- `_pending_tx_session = start_undo_session()`. -/
def openPending (n : Node Name Tx Rest) : Node Name Tx Rest :=
  { n with pendingTxSession := some n.objects, db := n.db.startUndoSession }

/-- `clear_pending`. -/
def clearPending (n : Node Name Tx Rest) : Node Name Tx Rest :=
  { n with pendingTx := [] }.resetPending

/-! ## Irreversible blocks -/

/-- The next position of the contract log is the one of this entry. -/
def contractFits (n : Node Name Tx Rest) (c : SignedContract) : Bool :=
  match n.contractLog.head? with
  | none => true
  | some first => c.blockNum = first.blockNum + n.contractLog.length

/-- The entry of block `num`, if there is one, goes to the contract log. -/
def appendContract (num : Nat) (n : Node Name Tx Rest) : Outcome Name Tx Rest :=
  match n.contractBlock.find? fun e => e.1 = num with
  | none => .ok n
  | some (_, c) =>
      if n.contractFits c then
        .ok { n with
          contractLog := n.contractLog ++ [c]
          contractBlock := n.contractBlock.filter fun e => e.1 ≠ num }
      else .error (.assertion "Append to index file occuring at wrong position.") n

/-- The loop of `update_last_irreversible_block` that appends the next
`count` blocks to the logs. -/
def appendToLog : Nat → Node Name Tx Rest → Outcome Name Tx Rest
  | 0, n => .ok n
  | count + 1, n =>
      match n.forkDb.fetchBlockOnMainBranchByNumber (n.logHeadNum + 1) with
      | none =>
          .error (.assertion
            "Current fork in the fork database does not contain the last_irreversible_block") n
      | some item =>
          (appendContract item.num { n with blockLog := n.blockLog ++ [item.data] }).andThen
            (appendToLog count)

/-- The rest of `update_last_irreversible_block`, once the new value is
written: commit, append to the log, prune the fork database. -/
def settleIrreversible (n : Node Name Tx Rest) : Outcome Name Tx Rest :=
  let lib := n.objects.lastIrreversibleBlockNum
  let n :=
    { n with
      db := n.db.commit lib
      committed := max n.committed (min lib n.headBlockNum) }
  (n.appendToLog (lib - n.logHeadNum)).andThen fun n =>
    .ok { n with
      forkDb := n.forkDb.setMaxSize ((sub32 n.headBlockNum lib + 1) % uint32Size) }

/-- `update_last_irreversible_block`. -/
def updateLastIrreversibleBlock (ev : Evaluators Name Tx Rest) (n : Node Name Tx Rest) :
    Outcome Name Tx Rest :=
  match n.objects.newLastIrreversible ev with
  | .error e => .error e n
  | .ok lib => (n.setObjects { n.objects with lastIrreversibleBlockNum := lib }).settleIrreversible

/-- The routines of `_apply_block` after the irreversible block. -/
def finishBlock (ev : Evaluators Name Tx Rest) (b : SignedBlock Name Tx)
    (n : Node Name Tx Rest) : Outcome Name Tx Rest :=
  match ev.finish n.objects b with
  | (r, some e) => .error e (n.setObjects (n.objects.setRest r))
  | (r, none) => .ok (n.setObjects (n.objects.setRest r))

/-! ## Transactions -/

/-- `_push_transaction`. -/
def pushTransactionInner (ev : Evaluators Name Tx Rest) (tx : Tx) (n : Node Name Tx Rest) :
    Outcome Name Tx Rest :=
  let n := if n.pendingTxSession.isSome then n else n.openPending
  let temp := { n with db := n.db.startUndoSession }
  match ev.applyTransaction temp.objects tx with
  | (r, some e) => .error e (temp.setObjects (temp.objects.setRest r)).undo
  | (r, none) =>
      let applied := temp.setObjects (temp.objects.setRest r)
      .ok { applied with
        pendingTx := applied.pendingTx ++ [tx]
        db := applied.db.squash }

/-- `push_transaction`. -/
def pushTransaction (ev : Evaluators Name Tx Rest) (tx : Tx) (n : Node Name Tx Rest) :
    Outcome Name Tx Rest :=
  if ev.packSize tx ≤ ev.maximumBlockSize n.objects.rest - 256 then n.pushTransactionInner ev tx
  else .error (.assertion "fc::raw::pack_size(trx) <= maximum_block_size - 256") n

/-- One turn of the loops of `~pending_transactions_restorer`: exceptions
are swallowed. -/
def restoreTransaction (ev : Evaluators Name Tx Rest) (n : Node Name Tx Rest) (tx : Tx) :
    Node Name Tx Rest :=
  if ev.isKnownTransaction n.objects.rest tx then n else (n.pushTransactionInner ev tx).state

/-- `~pending_transactions_restorer`. -/
def restorePending (ev : Evaluators Name Tx Rest) (pending : List Tx) (n : Node Name Tx Rest) :
    Node Name Tx Rest :=
  let n := n.poppedTx.foldl (restoreTransaction ev) n
  pending.foldl (restoreTransaction ev) { n with poppedTx := [] }

/-! ## Blocks -/

/-- `pop_block`, `pinned` being the fork items its caller holds. -/
def popBlock (pinned : List (ForkItem Name Tx)) (n : Node Name Tx Rest) : Outcome Name Tx Rest :=
  let n := n.resetPending
  match n.fetchBlockById n.headBlockId with
  | none => .error (.popEmptyChain "there are no blocks to pop") n
  | some b =>
      match n.forkDb.popBlock pinned with
      | .error e => .error e n
      | .ok f => .ok { n.undo with forkDb := f, poppedTx := b.transactions ++ n.poppedTx }

/-- `while( head_block_id() != id ) pop_block();` Every turn moves the head
of the fork database to an item allocated earlier, so the number of
allocations bounds the loop. -/
def popUntil (pinned : List (ForkItem Name Tx)) (id : BlockId) (n : Node Name Tx Rest) :
    Outcome Name Tx Rest :=
  Result.whileLoop (.assertion "head_block_id() != id") (fun n => n.headBlockId ≠ id)
    (popBlock pinned) (n.forkDb.nextAddr + 1) n

variable [DecidableEq Name]

/-- `_contract_block[next_block.block_num()] = sc`, for a block that gets so far. -/
def noteContract (ev : Evaluators Name Tx Rest) (b : SignedBlock Name Tx)
    (n : Node Name Tx Rest) : Node Name Tx Rest :=
  { n with
    contractBlock :=
      if n.objects.executes ev b then
        (b.blockNum, ⟨b.previous, b.id, ev.signee b⟩) ::
          n.contractBlock.filter fun e => e.1 ≠ b.blockNum
      else n.contractBlock }

/-- `apply_block`. -/
def applyBlock (ev : Evaluators Name Tx Rest) (b : SignedBlock Name Tx) (n : Node Name Tx Rest) :
    Outcome Name Tx Rest :=
  let n := n.noteContract ev b
  match n.objects.applyHeader ev b with
  | (o, some e) => .error e (n.setObjects o)
  | (o, none) =>
      ((n.setObjects o).updateLastIrreversibleBlock ev).andThen (finishBlock ev b)

/-- Apply a block in a session of its own. -/
def applyInSession (ev : Evaluators Name Tx Rest) (b : SignedBlock Name Tx)
    (n : Node Name Tx Rest) : Outcome Name Tx Rest :=
  n.withSession (applyBlock ev b)

/-- The handler of a block that fails in the middle of a fork switch:
`bad` are the failing item and those above it. -/
def recoverFork (ev : Evaluators Name Tx Rest) (pinned bad : List (ForkItem Name Tx))
    (old : ForkDatabase.Branch Name Tx) (fork : BlockId) (n : Node Name Tx Rest) :
    Outcome Name Tx Rest :=
  let removed := bad.foldl (fun f item => f.remove item.id) n.forkDb
  let n :=
    { n with
      forkDb :=
        match old.head? with
        | none => removed
        | some tip => removed.setHead tip }
  (n.popUntil pinned fork).andThen
    (Result.forEach (fun item => applyInSession ev item.data) old.reverse)

/-- The loop of a fork switch over the new branch, lowest block first. -/
def pushBranch (ev : Evaluators Name Tx Rest) (pinned : List (ForkItem Name Tx))
    (old : ForkDatabase.Branch Name Tx) (fork : BlockId) :
    List (ForkItem Name Tx) → Node Name Tx Rest → Outcome Name Tx Rest
  | [], n => .ok n
  | item :: rest, n =>
      match n.applyInSession ev item.data with
      | .ok n' => pushBranch ev pinned old fork rest n'
      | .error e n' =>
          (n'.recoverFork ev pinned (item :: rest) old fork).andThen fun n'' => .error e n''

/-- The fork switch of `_push_block` to the branch of `newHead`. -/
def switchForks (ev : Evaluators Name Tx Rest) (newHead : ForkItem Name Tx)
    (n : Node Name Tx Rest) : Outcome Name Tx Rest :=
  match n.forkDb.fetchBranchFrom newHead.id n.headBlockId with
  | .error e => .error e n
  | .ok (first, second) =>
      match second.getLast? with
      | none => .ok n
      | some last =>
          let pinned := newHead :: (first ++ second)
          (n.popUntil pinned last.previousId).andThen
            (pushBranch ev pinned second last.previousId first.reverse)

/-- `_push_block`. -/
def pushBlockInner (ev : Evaluators Name Tx Rest) (b : SignedBlock Name Tx)
    (n : Node Name Tx Rest) : Outcome Name Tx Rest :=
  match n.forkDb.pushBlock b with
  | .error e => .error e n
  | .ok f =>
      let n := { n with forkDb := f }
      match f.head with
      | none => .ok n
      | some newHead =>
          if newHead.previousId ≠ n.headBlockId then
            if n.headBlockNum < newHead.num then n.switchForks ev newHead else .ok n
          else
            (n.applyInSession ev b).onError fun n => { n with forkDb := n.forkDb.remove b.id }

/-- `push_block`. -/
def pushBlock (ev : Evaluators Name Tx Rest) (b : SignedBlock Name Tx) (n : Node Name Tx Rest) :
    Outcome Name Tx Rest :=
  (n.clearPending.pushBlockInner ev b).onExit (restorePending ev n.pendingTx)

/-- One turn of the loop of `_generate_block` over the pending transactions:
the node, the transactions taken and their total size. -/
def takeTransaction (ev : Evaluators Name Tx Rest) (maximumBlockSize time : Nat)
    (acc : Node Name Tx Rest × List Tx × Nat) (tx : Tx) : Node Name Tx Rest × List Tx × Nat :=
  let (n, taken, total) := acc
  if ev.expiration tx < time then acc
  else if maximumBlockSize ≤ total + ev.packSize tx then acc
  else
    let temp := { n with db := n.db.startUndoSession }
    match ev.applyTransaction temp.objects tx with
    | (r, some _) => ((temp.setObjects (temp.objects.setRest r)).undo, taken, total)
    | (r, none) =>
        let applied := temp.setObjects (temp.objects.setRest r)
        ({ applied with db := applied.db.squash }, taken ++ [tx], total + ev.packSize tx)

/-- The node with its pending session rebuilt and dropped again, and the
block `_generate_block` assembles on the way; `headerSize` is the size of an
empty header plus four. -/
def assembleBlock (ev : Evaluators Name Tx Rest) (headerSize time : Nat) (owner : Name)
    (key : Nat) (n : Node Name Tx Rest) : Node Name Tx Rest × SignedBlock Name Tx :=
  let (rebuilt, taken, _) :=
    n.pendingTx.foldl (takeTransaction ev (ev.maximumBlockSize n.objects.rest) time)
      (n.resetPending.openPending, [], headerSize)
  let m := rebuilt.resetPending
  (m, { previous := m.headBlockId, timestamp := time, witness := owner, transactions := taken,
        hash := ev.headerHash m.objects time owner key taken })

/-- `generate_block`. -/
def generateBlock (ev : Evaluators Name Tx Rest) (headerSize time : Nat) (owner : Name)
    (key : Nat) (n : Node Name Tx Rest) : Outcome Name Tx Rest :=
  let slotNum := n.objects.getSlotAtTime time
  if ¬0 < slotNum then .error (.assertion "slot_num > 0") n
  else if n.objects.getScheduledWitness ev slotNum ≠ some owner then
    .error (.assertion "scheduled_witness == witness_owner") n
  else if ¬ev.hasWitness n.objects.rest owner then .error (.assertion "unknown key") n
  else if ev.signingKey n.objects.rest owner ≠ key then
    .error (.assertion "witness_obj.signing_key == block_signing_private_key.get_public_key()") n
  else
    let assembled := n.assembleBlock ev headerSize time owner key
    if ev.blockSize assembled.2 ≤ maxBlockSize then assembled.1.pushBlock ev assembled.2
    else
      .error (.assertion "fc::raw::pack_size(pending_block) <= GAMEBANK_MAX_BLOCK_SIZE")
        assembled.1

/-- `confirm_block`: the header's witness confirms the number after the head. -/
def confirmBlock (ev : Evaluators Name Tx Rest) (b : SignedBlock Name Tx) (n : Node Name Tx Rest) :
    Outcome Name Tx Rest :=
  match n.objects.validateBlockHeader ev b with
  | .error e => .error e n
  | .ok () =>
      if b.blockNum < n.objects.lastConfirmedBlockNum b.witness then .ok n
      else (n.setObjects (n.objects.recordConfirmation b)).updateLastIrreversibleBlock ev

/-! ## Runs -/

end Node

/-- The entry points with their arguments. -/
inductive Step (Name : Type u) (Tx : Type v) where
  | pushBlock (b : SignedBlock Name Tx)
  | pushTransaction (tx : Tx)
  | generateBlock (headerSize time : Nat) (owner : Name) (key : Nat)
  | popBlock
  | confirmBlock (b : SignedBlock Name Tx)

namespace Node

variable [DecidableEq Name]

/-- One call, and how it ends. -/
def callStep (ev : Evaluators Name Tx Rest) (n : Node Name Tx Rest) :
    Step Name Tx → Outcome Name Tx Rest
  | .pushBlock b => n.pushBlock ev b
  | .pushTransaction tx => n.pushTransaction ev tx
  | .generateBlock headerSize time owner key => n.generateBlock ev headerSize time owner key
  | .popBlock => n.popBlock []
  | .confirmBlock b => n.confirmBlock ev b

/-- The node after a call; the caller survives an exception. -/
def step (ev : Evaluators Name Tx Rest) (n : Node Name Tx Rest) (s : Step Name Tx) :
    Node Name Tx Rest :=
  (n.callStep ev s).state

def run (ev : Evaluators Name Tx Rest) (n : Node Name Tx Rest) (steps : List (Step Name Tx)) :
    Node Name Tx Rest :=
  steps.foldl (step ev) n

/-- The run meets `C` at each of its steps. -/
def Along (ev : Evaluators Name Tx Rest) (C : Node Name Tx Rest → Step Name Tx → Prop) :
    Node Name Tx Rest → List (Step Name Tx) → Prop :=
  Lib.Along (step ev) C

theorem run_append (ev : Evaluators Name Tx Rest) (n : Node Name Tx Rest)
    (steps more : List (Step Name Tx)) :
    n.run ev (steps ++ more) = (n.run ev steps).run ev more := List.foldl_append

/-- A node just opened: no undo state, no session, no transactions waiting. -/
structure Opened (n : Node Name Tx Rest) : Prop where
  stack : n.db.stack = []
  revision : n.db.revision = n.headBlockNum
  pending : n.pendingTxSession = none
  pendingTx : n.pendingTx = []
  poppedTx : n.poppedTx = []
  committed : n.committed = n.headBlockNum
  headId : n.headBlockId.num = n.headBlockNum
  applied : n.objects.applied = []

end Node

end Gamebank.Chain
