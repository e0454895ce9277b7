import Gamebank.Chain.Objects

/-!
# `_apply_transaction` and the deduplication table

`transaction_index` holds an object for each transaction applied that has
not expired. A transaction whose id is in the table is refused, and so is
one that has expired (on block 1 nothing is expired, and the check is
skipped). Objects leave the table at the end of a block, once the time of
that block is past their expiration.

The table is part of `rest`; what lies behind it (accounts, schedules, block
summaries, …) is `inner`, and the routines that work on it are the parameters
`Handlers`. None of them writes the table. `blocks` records the blocks
applied, oldest first; nothing reads it.
-/

namespace Gamebank.Chain

universe u v w

/-- `GAMEBANK_MAX_TIME_UNTIL_EXPIRATION`. -/
def maxTimeUntilExpiration : Nat := 3600

/-- `transaction_object`; the packed transaction is only handed out to readers. -/
structure TransactionObject where
  trxId : Nat
  expiration : Nat
deriving DecidableEq

structure Guarded (Name : Type u) (Tx : Type v) (Inner : Type w) where
  /-- `transaction_index` in the order of `by_expiration`. -/
  transactions : List TransactionObject
  blocks : List (SignedBlock Name Tx)
  inner : Inner

/-- What a node does beside the table. A routine gives the new `inner` and
the exception it threw, if any. -/
structure Handlers (Name : Type u) (Tx : Type v) (Inner : Type w) where
  /-- `transaction::id`, the first bytes of a SHA-256 digest. -/
  trxId : Tx → Nat
  expiration : Tx → Nat
  refBlockNum : Tx → Nat
  refBlockPrefix : Tx → Nat
  packSize : Tx → Nat
  /-- `transaction::validate`. -/
  validate : Tx → Except ChainException Unit
  /-- `signed_transaction::verify_authority`. -/
  verifyAuthority : Objects Name Inner → Tx → Except ChainException Unit
  /-- `block_id._hash[1]` of the `block_summary_object` with this id. -/
  summaryPrefix : Inner → Nat → Nat
  /-- The operations, between the two notifications. -/
  applyOperations : Objects Name Inner → Tx → Inner × Option ChainException
  hasWitness : Inner → Name → Bool
  signingKey : Inner → Name → Nat
  signee : SignedBlock Name Tx → Nat
  scheduledWitnesses : Inner → List Name
  /-- From `apply_block` to the merkle check. -/
  prepare : Objects Name Inner → SignedBlock Name Tx → Inner × Option ChainException
  /-- Block size, header extensions, hardfork version. -/
  examine : Objects Name Inner → SignedBlock Name Tx → Inner × Option ChainException
  recordMissed : Objects Name Inner → SignedBlock Name Tx → Inner × Option ChainException
  createBlockSummary : Objects Name Inner → SignedBlock Name Tx → Inner
  /-- From `clear_expired_orders` to the end of `_apply_block`. -/
  finish : Objects Name Inner → SignedBlock Name Tx → Inner × Option ChainException
  blockSize : SignedBlock Name Tx → Nat
  maximumBlockSize : Inner → Nat
  headerHash : Objects Name Inner → Nat → Name → Nat → List Tx → Nat

variable {Name : Type u} {Tx : Type v} {Inner : Type w}

namespace Guarded

/-- `is_known_transaction`. -/
def isKnownTransaction (g : Guarded Name Tx Inner) (id : Nat) : Bool :=
  g.transactions.any fun t => t.trxId = id

/-- `create<transaction_object>`: behind those that expire no later. -/
def record (g : Guarded Name Tx Inner) (t : TransactionObject) : Guarded Name Tx Inner :=
  { g with transactions := g.transactions.orderedInsert (fun a b => a.expiration < b.expiration) t }

/-- `clear_expired_transactions`. -/
def clearExpiredTransactions (g : Guarded Name Tx Inner) (headBlockTime : Nat) :
    Guarded Name Tx Inner :=
  { g with transactions := g.transactions.dropWhile fun t => t.expiration < headBlockTime }

def setInner (g : Guarded Name Tx Inner) (r : Inner) : Guarded Name Tx Inner :=
  { g with inner := r }

/-- The transactions of the blocks applied, in their order. -/
def positions (g : Guarded Name Tx Inner) : List Tx := g.blocks.flatMap SignedBlock.transactions

end Guarded

namespace Objects

/-- The objects as the routines of `Handlers` see them. -/
def inner (o : Objects Name (Guarded Name Tx Inner)) : Objects Name Inner :=
  { o with rest := o.rest.inner }

end Objects

namespace Handlers

/-- The checks of `_apply_transaction` that need a block: TaPoS and expiration. -/
def checkExpiration (h : Handlers Name Tx Inner) (o : Objects Name (Guarded Name Tx Inner))
    (tx : Tx) : Except ChainException Unit :=
  if ¬0 < o.headBlockNumber then .ok ()
  else if h.refBlockPrefix tx ≠ h.summaryPrefix o.rest.inner (h.refBlockNum tx) then
    .error (.assertion "trx.ref_block_prefix == tapos_block_summary.block_id._hash[1]")
  else if ¬h.expiration tx ≤ o.time + maxTimeUntilExpiration then
    .error (.assertion "trx.expiration <= now + fc::seconds(GAMEBANK_MAX_TIME_UNTIL_EXPIRATION)")
  else if ¬o.time < h.expiration tx then .error (.assertion "now < trx.expiration")
  else if ¬o.time ≤ h.expiration tx then .error (.assertion "now <= trx.expiration")
  else .ok ()

/-- What `_apply_transaction` checks before it changes anything. -/
def checkTransaction (h : Handlers Name Tx Inner) (o : Objects Name (Guarded Name Tx Inner))
    (tx : Tx) : Except ChainException Unit :=
  match h.validate tx with
  | .error e => .error e
  | .ok () =>
      if o.rest.isKnownTransaction (h.trxId tx) then
        .error (.assertion "Duplicate transaction check failed")
      else
        match h.verifyAuthority o.inner tx with
        | .error e => .error e
        | .ok () => h.checkExpiration o tx

/-- `_apply_transaction`. -/
def applyTransaction (h : Handlers Name Tx Inner) (o : Objects Name (Guarded Name Tx Inner))
    (tx : Tx) : Guarded Name Tx Inner × Option ChainException :=
  match h.checkTransaction o tx with
  | .error e => (o.rest, some e)
  | .ok () =>
      let recorded := o.rest.record ⟨h.trxId tx, h.expiration tx⟩
      let (r, e) := h.applyOperations o.inner tx
      (recorded.setInner r, e)

/-- The loop of `_apply_block` over the transactions. -/
def applyTransactions (h : Handlers Name Tx Inner) :
    List Tx → Objects Name (Guarded Name Tx Inner) → Guarded Name Tx Inner × Option ChainException
  | [], o => (o.rest, none)
  | tx :: txs, o =>
      match h.applyTransaction o tx with
      | (r, some e) => (r, some e)
      | (r, none) => h.applyTransactions txs (o.setRest r)

/-- Block size, header extensions, hardfork version, transactions. -/
def execute (h : Handlers Name Tx Inner) (o : Objects Name (Guarded Name Tx Inner))
    (b : SignedBlock Name Tx) : Guarded Name Tx Inner × Option ChainException :=
  match h.examine o.inner b with
  | (r, some e) => (o.rest.setInner r, some e)
  | (r, none) => h.applyTransactions b.transactions (o.setRest (o.rest.setInner r))

/-- The witnesses of the slots the block skips; the head moves right after. -/
def missBlocks (h : Handlers Name Tx Inner) (o : Objects Name (Guarded Name Tx Inner))
    (b : SignedBlock Name Tx) : Guarded Name Tx Inner × Option ChainException :=
  match h.recordMissed o.inner b with
  | (r, some e) => (o.rest.setInner r, some e)
  | (r, none) => ({ o.rest.setInner r with blocks := o.rest.blocks ++ [b] }, none)

/-- From `create_block_summary` to the end of `_apply_block`. -/
def finishBlock (h : Handlers Name Tx Inner) (o : Objects Name (Guarded Name Tx Inner))
    (b : SignedBlock Name Tx) : Guarded Name Tx Inner × Option ChainException :=
  let o := o.setRest (o.rest.setInner (h.createBlockSummary o.inner b))
  let o := o.setRest (o.rest.clearExpiredTransactions o.time)
  let (r, e) := h.finish o.inner b
  (o.rest.setInner r, e)

/-- The node's routines over `rest` with the table. -/
def evaluators (h : Handlers Name Tx Inner) : Evaluators Name Tx (Guarded Name Tx Inner) where
  hasWitness g := h.hasWitness g.inner
  signingKey g := h.signingKey g.inner
  signee := h.signee
  scheduledWitnesses g := h.scheduledWitnesses g.inner
  prepare o b := (o.rest.setInner (h.prepare o.inner b).1, (h.prepare o.inner b).2)
  execute := h.execute
  recordMissed := h.missBlocks
  finish := h.finishBlock
  applyTransaction := h.applyTransaction
  isKnownTransaction g tx := g.isKnownTransaction (h.trxId tx)
  packSize := h.packSize
  blockSize := h.blockSize
  maximumBlockSize g := h.maximumBlockSize g.inner
  expiration := h.expiration
  headerHash o := h.headerHash o.inner

end Handlers

end Gamebank.Chain
