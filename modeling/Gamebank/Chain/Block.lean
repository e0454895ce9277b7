import Mathlib.Data.List.Basic

/-!
# Blocks

`protocol/block.hpp` as far as the chain logic reads it. A block id starts
with the block number, so `num_from_id` is a projection; the rest of the id
is a hash of the signed header. The hash is carried as a field: nothing is
assumed of the hash function here.
-/

namespace Gamebank.Chain

/-- `block_id_type`: the block number and the hash. -/
structure BlockId where
  num : Nat
  hash : Nat
deriving DecidableEq, Repr

/-- `block_id_type()`, the id before the first block. -/
def BlockId.zero : BlockId := ⟨0, 0⟩

universe u v

/-- `signed_block`. The other fields of the header (merkle root, extensions,
signature) are read only by its hash and by checks outside this model. -/
structure SignedBlock (Name : Type u) (Tx : Type v) where
  previous : BlockId
  timestamp : Nat
  witness : Name
  transactions : List Tx
  hash : Nat
deriving DecidableEq

namespace SignedBlock

variable {Name : Type u} {Tx : Type v}

/-- `block_header::block_num`: one more than the number in `previous`. -/
def blockNum (b : SignedBlock Name Tx) : Nat := b.previous.num + 1

/-- `signed_block_header::id`: the hash with the block number in front. -/
def id (b : SignedBlock Name Tx) : BlockId := ⟨b.blockNum, b.hash⟩

@[simp] theorem id_num (b : SignedBlock Name Tx) : b.id.num = b.blockNum := rfl

/-- A block never is its own predecessor. -/
theorem previous_ne_id (b : SignedBlock Name Tx) : b.previous ≠ b.id := by
  intro h
  have := congrArg BlockId.num h
  simp only [id_num, blockNum] at this
  omega

end SignedBlock

/-- `signed_contract`, the entry of the contract log for a block. The contract
operations of its transactions are not read by the chain logic. -/
structure SignedContract where
  previous : BlockId
  blockId : BlockId
  signingKey : Nat
deriving DecidableEq

/-- `signed_contract::block_num`. -/
def SignedContract.blockNum (c : SignedContract) : Nat := c.previous.num + 1

/-- The exceptions the chain logic throws itself. `evaluation` stands for
any exception of the code that applies transactions and of the per-block
routines. -/
inductive ChainException where
  | assertion (message : String)
  | unlinkableBlock (message : String)
  | popEmptyChain (message : String)
  | undoDatabase (message : String)
  | evaluation (code : Nat)
deriving DecidableEq, Repr

end Gamebank.Chain
