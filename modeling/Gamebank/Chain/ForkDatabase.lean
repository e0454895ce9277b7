import Gamebank.Chain.Block
import Gamebank.Lib.Action

/-!
# `fork_database`

The tree of recent blocks (`libraries/chain/fork_database.cpp`). An item
holds a block and a **weak** pointer to the item of its predecessor. The
pointer locks as long as something still owns that item: the index, the
head, or a local variable of the caller (`pinned`). Items are told apart
by an address, since two items of one id can exist: a block pushed again
is not inserted, the index being unique by id, but its item can still
become the head.

* `_unlinked_index` is always empty: the only insertion stands behind a
  `throw`.
* `invalid` is never set.
-/

namespace Gamebank.Chain

universe u v

variable {Name : Type u} {Tx : Type v}

/-- `fork_item`, with its address. -/
structure ForkItem (Name : Type u) (Tx : Type v) where
  addr : Nat
  data : SignedBlock Name Tx
  prev : Option Nat
deriving DecidableEq

namespace ForkItem

def num (i : ForkItem Name Tx) : Nat := i.data.blockNum

def id (i : ForkItem Name Tx) : BlockId := i.data.id

def previousId (i : ForkItem Name Tx) : BlockId := i.data.previous

end ForkItem

/-- `fork_database`. `nextAddr` is the address of the next item allocated. -/
structure ForkDatabase (Name : Type u) (Tx : Type v) where
  index : List (ForkItem Name Tx)
  head : Option (ForkItem Name Tx)
  maxSize : Nat
  nextAddr : Nat
deriving DecidableEq

namespace ForkDatabase

/-- The fork database of a node that has just been started. -/
def empty : ForkDatabase Name Tx := ⟨[], none, 1024, 0⟩

/-- `start_block`. -/
def startBlock (f : ForkDatabase Name Tx) (b : SignedBlock Name Tx) : ForkDatabase Name Tx :=
  let item : ForkItem Name Tx := ⟨f.nextAddr, b, none⟩
  { f with index := item :: f.index, head := some item, nextAddr := f.nextAddr + 1 }

/-- `fetch_block` in the index by id. -/
def fetchBlock (f : ForkDatabase Name Tx) (id : BlockId) : Option (ForkItem Name Tx) :=
  f.index.find? fun i => i.id = id

/-- `weak_ptr::lock`. -/
def lock (f : ForkDatabase Name Tx) (pinned : List (ForkItem Name Tx)) (p : Option Nat) :
    Option (ForkItem Name Tx) :=
  match p with
  | none => none
  | some a => (f.index ++ f.head.toList ++ pinned).find? fun i => i.addr = a

/-- `pop_block`: the head moves to its predecessor. -/
def popBlock (f : ForkDatabase Name Tx) (pinned : List (ForkItem Name Tx)) :
    Except ChainException (ForkDatabase Name Tx) :=
  match f.head with
  | none => .error (.assertion "cannot pop an empty fork database")
  | some h =>
      match f.lock pinned h.prev with
      | none => .error (.assertion "popping head block would leave fork DB empty")
      | some prev => .ok { f with head := some prev }

/-- `_index.insert`, which refuses an id it has. -/
def insert (f : ForkDatabase Name Tx) (item : ForkItem Name Tx) : ForkDatabase Name Tx :=
  match f.fetchBlock item.id with
  | none => { f with index := item :: f.index }
  | some _ => f

/-- The last line of `_push_block`: a higher item becomes the head. -/
def raiseHead (f : ForkDatabase Name Tx) (item : ForkItem Name Tx) : ForkDatabase Name Tx :=
  match f.head with
  | none => { f with head := some item }
  | some h => if h.num < item.num then { f with head := some item } else f

/-- The predecessor `_push_block` links a new item to. -/
def linkFor (f : ForkDatabase Name Tx) (b : SignedBlock Name Tx) :
    Except ChainException (Option Nat) :=
  match f.head with
  | none => .ok none
  | some _ =>
      if b.previous = BlockId.zero then .ok none
      else
        match f.fetchBlock b.previous with
        | none => .error (.unlinkableBlock "block does not link to known chain")
        | some prev => .ok (some prev.addr)

/-- The first check of `_push_block`. -/
def tooOld (f : ForkDatabase Name Tx) (b : SignedBlock Name Tx) : Bool :=
  match f.head with
  | none => false
  | some h => decide (b.blockNum ≤ h.num - f.maxSize)

/-- `push_block`. -/
def pushBlock (f : ForkDatabase Name Tx) (b : SignedBlock Name Tx) :
    Except ChainException (ForkDatabase Name Tx) :=
  if f.tooOld b then .error (.assertion "attempting to push a block that is too old")
  else
    match f.linkFor b with
    | .error e => .error e
    | .ok prev =>
        let item : ForkItem Name Tx := ⟨f.nextAddr, b, prev⟩
        .ok (({ f with nextAddr := f.nextAddr + 1 }.insert item).raiseHead item)

/-- `set_max_size`: blocks too far below the head are dropped. -/
def setMaxSize (f : ForkDatabase Name Tx) (s : Nat) : ForkDatabase Name Tx :=
  match f.head with
  | none => { f with maxSize := s }
  | some h => { f with maxSize := s, index := f.index.filter fun i => h.num - s ≤ i.num }

/-- `remove`. -/
def remove (f : ForkDatabase Name Tx) (id : BlockId) : ForkDatabase Name Tx :=
  { f with index := f.index.filter fun i => i.id ≠ id }

/-- `set_head`. -/
def setHead (f : ForkDatabase Name Tx) (item : ForkItem Name Tx) : ForkDatabase Name Tx :=
  { f with head := some item }

/-- `fetch_block_by_number`. -/
def fetchBlockByNumber (f : ForkDatabase Name Tx) (num : Nat) : List (ForkItem Name Tx) :=
  f.index.filter fun i => i.num = num

/-- The walk of `walk_main_branch_to_num`, from `next` down. -/
def walkDown (f : ForkDatabase Name Tx) (num : Nat) : Nat → Option (ForkItem Name Tx) →
    Option (ForkItem Name Tx)
  | _, none => none
  | 0, some _ => none
  | fuel + 1, some next =>
      if num < next.num then f.walkDown num fuel (f.lock [] next.prev) else some next

/-- `walk_main_branch_to_num`. Every link leads to an item one lower, so
the height of the head bounds the walk. -/
def walkMainBranchToNum (f : ForkDatabase Name Tx) (num : Nat) : Option (ForkItem Name Tx) :=
  match f.head with
  | none => none
  | some h => if h.num < num then none else f.walkDown num h.num (some h)

/-- `fetch_block_on_main_branch_by_number`. -/
def fetchBlockOnMainBranchByNumber (f : ForkDatabase Name Tx) (num : Nat) :
    Option (ForkItem Name Tx) :=
  match f.fetchBlockByNumber num with
  | [] => none
  | [item] => some item
  | _ => f.walkMainBranchToNum num

/-! ## Branches -/

/-- A branch in the order of the source: from the tip down to the fork. -/
abbrev Branch (Name : Type u) (Tx : Type v) := List (ForkItem Name Tx)

/-- Climb down from `item` to the height `num`, collecting the items above it. -/
def climb (f : ForkDatabase Name Tx) (num : Nat) : Nat → ForkItem Name Tx →
    Option (Branch Name Tx × ForkItem Name Tx)
  | 0, _ => none
  | fuel + 1, item =>
      if num < item.num then
        match f.lock [] item.prev with
        | none => none
        | some below => (f.climb num fuel below).map fun r => (item :: r.1, r.2)
      else some ([], item)

/-- The last loop of `fetch_branch_from`: down both branches until the
predecessors are the same block, which is the fork. -/
def meet (f : ForkDatabase Name Tx) : Nat → ForkItem Name Tx → ForkItem Name Tx →
    Option (Branch Name Tx × Branch Name Tx)
  | 0, _, _ => none
  | fuel + 1, a, b =>
      if a.previousId = b.previousId then some ([a], [b])
      else
        match f.lock [] a.prev, f.lock [] b.prev with
        | some a', some b' => (f.meet fuel a' b').map fun r => (a :: r.1, b :: r.2)
        | _, _ => none

/-- `fetch_branch_from`. The heights bound the three loops: every link
leads one block down, and at height one the predecessors agree. -/
def fetchBranchFrom (f : ForkDatabase Name Tx) (first second : BlockId) :
    Except ChainException (Branch Name Tx × Branch Name Tx) :=
  match f.fetchBlock first, f.fetchBlock second with
  | some a, some b =>
      match f.climb b.num a.num a with
      | none => .error (.assertion "first_branch")
      | some (above, a') =>
          match f.climb a'.num b.num b with
          | none => .error (.assertion "second_branch")
          | some (above', b') =>
              match f.meet a'.num a' b' with
              | none => .error (.assertion "first_branch && second_branch")
              | some (down, down') => .ok (above ++ down, above' ++ down')
  | _, _ => .error (.assertion "branch_itr != _index.get<block_id>().end()")

end ForkDatabase

end Gamebank.Chain
