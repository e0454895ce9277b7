import Gamebank.Chain.Node
import Gamebank.Protocol.BlockPacking

/-!
# The size of a produced block

`_generate_block` takes transactions as long as an estimate stays below
`maximum_block_size`. The estimate is the packed size of an empty header and
four more bytes; the block it pushes has the name of the witness in its
header, the extensions, and the number of its transactions in front of them.
What the estimate leaves out of these decides whether the block fits.
-/

namespace Gamebank.Chain

open Gamebank.Lib Gamebank.Protocol

universe v w

/-- What `_generate_block` reads of the state and of the binary for a header,
and what it calls to pack, to hash and to sign. A packed transaction has at
least the fields of its header. -/
structure Producer (Tx : Type v) (Rest : Type w) where
  packTx : Tx → List UInt8
  packTx_ne_nil : ∀ tx, packTx tx ≠ []
  idBytes : BlockId → Vector UInt8 20
  calculateMerkleRoot : List Tx → Vector UInt8 20
  sign : SignedBlockHeader → Nat → Vector UInt8 65
  maximumBlockSize : Rest → UInt32
  runningVersion : Rest → FixedString → UInt32
  hardforkVersionVote : Rest → FixedString → UInt32
  hardforkTimeVote : Rest → FixedString → UInt32
  currentHardforkVersion : Rest → UInt32
  lastHardfork : Rest → Nat
  hardforkVersions : Nat → UInt32
  hardforkTimes : Nat → UInt32

/-- `max_block_header_size`. -/
def maxBlockHeaderSize : Nat := SignedBlockHeader.empty.pack.length + 4

namespace Producer

variable {Tx : Type v} {Rest : Type w}

/-- The sizes that the chain logic reads. -/
def evaluators (p : Producer Tx Rest) (ev : Evaluators FixedString Tx Rest) :
    Evaluators FixedString Tx Rest :=
  { ev with
    packSize := fun tx => (p.packTx tx).length
    maximumBlockSize := fun r => (p.maximumBlockSize r).toNat }

/-- The vote for the hardfork with a number. -/
def voteFor (p : Producer Tx Rest) (hardfork : Nat) : BlockHeaderExtension :=
  .hardforkVersionVote (p.hardforkVersions hardfork) (p.hardforkTimes hardfork)

/-- The extensions of a header: the version, if the witness has reported
another one, and a vote, if his does not match the binary. -/
def headerExtensions (p : Producer Tx Rest) (r : Rest) (owner : FixedString) :
    List BlockHeaderExtension :=
  let extensions :=
    if p.runningVersion r owner ≠ blockchainVersion then
      BlockHeaderExtension.insert (.version blockchainVersion) []
    else []
  let next := p.lastHardfork r + 1
  if p.currentHardforkVersion r < hardforkPart blockchainVersion ∧
      (p.hardforkVersionVote r owner ≠ p.hardforkVersions next ∨
        p.hardforkTimeVote r owner ≠ p.hardforkTimes next) then
    BlockHeaderExtension.insert (p.voteFor next) extensions
  else if p.currentHardforkVersion r = hardforkPart blockchainVersion ∧
      hardforkPart blockchainVersion < p.hardforkVersionVote r owner then
    BlockHeaderExtension.insert (p.voteFor (p.lastHardfork r)) extensions
  else extensions

/-- The header `_generate_block` signs for a block it has assembled. -/
def generatedHeader (p : Producer Tx Rest) (r : Rest) (b : SignedBlock FixedString Tx)
    (key : Nat) : SignedBlockHeader :=
  let header : SignedBlockHeader :=
    { SignedBlockHeader.empty with
      previous := p.idBytes b.previous
      timestamp := UInt32.ofNat b.timestamp
      witness := b.witness.string
      transactionMerkleRoot := p.calculateMerkleRoot b.transactions
      extensions := p.headerExtensions r b.witness }
  { header with witnessSignature := p.sign header key }

/-- The block `_generate_block` pushes, packed. -/
def generatedBlock (p : Producer Tx Rest) (ev : Evaluators FixedString Tx Rest) (time : Nat)
    (owner : FixedString) (key : Nat) (n : Node FixedString Tx Rest) : List UInt8 :=
  let (m, b) := n.assembleBlock (p.evaluators ev) maxBlockHeaderSize time owner key
  (p.generatedHeader m.objects.rest b key).pack ++ packTransactions p.packTx b.transactions

/-! ## The size of the block -/

theorem insert_length_le (e : BlockHeaderExtension) (es : List BlockHeaderExtension) :
    (BlockHeaderExtension.insert e es).length ≤ es.length + 1 := by
  induction es with
  | nil => simp [BlockHeaderExtension.insert]
  | cons x rest ih =>
      unfold BlockHeaderExtension.insert
      split
      · simp
      · split
        · simpa using ih
        · simp

theorem headerExtensions_length_le (p : Producer Tx Rest) (r : Rest) (owner : FixedString) :
    (p.headerExtensions r owner).length ≤ 2 := by
  have hfirst : (if p.runningVersion r owner ≠ blockchainVersion then
      BlockHeaderExtension.insert (.version blockchainVersion) [] else []).length ≤ 1 := by
    split
    · exact insert_length_le _ _
    · simp
  have hvote := fun e => (insert_length_le e _).trans (Nat.add_le_add_right hfirst 1)
  unfold headerExtensions
  dsimp only
  split
  · exact hvote _
  · split
    · exact hvote _
    · exact hfirst.trans (by omega)

/-- The bytes of a block with `count` transactions that an empty header does not
have: the name, the extensions and the count. -/
def leftOut (p : Producer Tx Rest) (r : Rest) (owner : FixedString) (count : Nat) : Nat :=
  owner.string.length + extensionsSize (p.headerExtensions r owner) +
    (packUnsigned (count % 4294967296)).length

theorem generatedHeader_length (p : Producer Tx Rest) (r : Rest) (b : SignedBlock FixedString Tx)
    (key : Nat) : (p.generatedHeader r b key).pack.length =
      111 + b.witness.string.length + extensionsSize (p.headerExtensions r b.witness) := by
  have hname : (p.generatedHeader r b key).witness.length < 128 := by
    have := FixedString.length_string_le b.witness
    show b.witness.string.length < 128
    omega
  have hfew : (p.generatedHeader r b key).extensions.length < 128 := by
    have := p.headerExtensions_length_le r b.witness
    show (p.headerExtensions r b.witness).length < 128
    omega
  exact SignedBlockHeader.length_pack _ hname hfew

/-- The packed size of transactions. -/
def txsSize (p : Producer Tx Rest) (txs : List Tx) : Nat :=
  (txs.map p.packTx).flatten.length

@[simp] theorem txsSize_append_singleton (p : Producer Tx Rest) (txs : List Tx) (tx : Tx) :
    p.txsSize (txs ++ [tx]) = p.txsSize txs + (p.packTx tx).length := by
  simp [txsSize]

/-- Every transaction has a byte. -/
theorem length_le_txsSize (p : Producer Tx Rest) (txs : List Tx) : txs.length ≤ p.txsSize txs := by
  unfold txsSize
  induction txs with
  | nil => simp
  | cons tx txs ih =>
      have hpos := List.length_pos_of_ne_nil (p.packTx_ne_nil tx)
      rw [List.map_cons, List.flatten_cons, List.length_append, List.length_cons]
      omega

/-! ## The loop -/

/-- What the loop over the pending transactions carries. -/
abbrev Assembly (Tx : Type v) (Rest : Type w) := Node FixedString Tx Rest × List Tx × Nat

variable {p : Producer Tx Rest} {ev : Evaluators FixedString Tx Rest} {limit time : Nat}
  {acc : Assembly Tx Rest} {tx : Tx}

/-- The loop takes the transaction: it has not expired, the estimate leaves
room for it, and it applies. -/
def Takes (p : Producer Tx Rest) (ev : Evaluators FixedString Tx Rest) (limit time : Nat)
    (acc : Assembly Tx Rest) (tx : Tx) : Prop :=
  time ≤ ev.expiration tx ∧ acc.2.2 + (p.packTx tx).length < limit ∧
    (ev.applyTransaction acc.1.objects tx).2 = none

/-- One turn of the loop. -/
def turn (p : Producer Tx Rest) (ev : Evaluators FixedString Tx Rest) (limit time : Nat) :
    Assembly Tx Rest → Tx → Assembly Tx Rest :=
  Node.takeTransaction (p.evaluators ev) limit time

/-- A turn changes the objects in the session under the loop, and takes the
transaction or not. -/
theorem turn_cases (p : Producer Tx Rest) (ev : Evaluators FixedString Tx Rest) (limit time : Nat)
    (tx : Tx) (hstack : acc.1.db.stack ≠ []) :
    ((p.turn ev limit time acc tx).1.db.stack = acc.1.db.stack ∧
        (p.turn ev limit time acc tx).1.pendingTxSession = acc.1.pendingTxSession) ∧
      ((¬p.Takes ev limit time acc tx ∧ (p.turn ev limit time acc tx).2 = acc.2) ∨
        (p.Takes ev limit time acc tx ∧ (p.turn ev limit time acc tx).2 =
          (acc.2.1 ++ [tx], acc.2.2 + (p.packTx tx).length))) := by
  obtain ⟨n, taken, total⟩ := acc
  unfold turn Node.takeTransaction Takes
  dsimp only
  have hexpiration : (p.evaluators ev).expiration tx = ev.expiration tx := rfl
  have hsize : (p.evaluators ev).packSize tx = (p.packTx tx).length := rfl
  have happly : (p.evaluators ev).applyTransaction = ev.applyTransaction := rfl
  rw [hexpiration, hsize, happly]
  split
  next hlate => exact ⟨⟨rfl, rfl⟩, .inl ⟨fun h => by omega, rfl⟩⟩
  next hlate =>
    split
    next hfull => exact ⟨⟨rfl, rfl⟩, .inl ⟨fun h => by omega, rfl⟩⟩
    next hfull =>
      have hobjects : ({ n with db := n.db.startUndoSession } : Node FixedString Tx Rest).objects =
          n.objects := rfl
      rw [hobjects]
      split
      next r e hresult =>
        refine ⟨⟨rfl, rfl⟩, .inl ⟨fun h => ?_, rfl⟩⟩
        rw [hresult] at h
        cases h.2.2
      next r hresult =>
        refine ⟨⟨?_, rfl⟩, .inr ⟨⟨by omega, by omega, by rw [hresult]⟩, rfl⟩⟩
        show (n.db.startUndoSession.set (n.objects.setRest r)).squash.stack = n.db.stack
        rw [SnapshotStack.squash_set_startUndoSession hstack]
        rfl

/-- The estimate counts an empty header, four bytes and what has been taken,
and something is taken only below the limit. -/
structure Estimated (p : Producer Tx Rest) (limit : Nat) (acc : Assembly Tx Rest) : Prop where
  stack : acc.1.db.stack ≠ []
  total : acc.2.2 = 115 + p.txsSize acc.2.1
  below : acc.2.1 ≠ [] → acc.2.2 < limit

theorem Estimated.turn (h : p.Estimated limit acc) (ev : Evaluators FixedString Tx Rest)
    (time : Nat) (tx : Tx) : p.Estimated limit (p.turn ev limit time acc tx) := by
  obtain ⟨⟨hstack, -⟩, ⟨-, hsame⟩ | ⟨htakes, hnext⟩⟩ := p.turn_cases ev limit time tx h.stack
  · refine ⟨hstack ▸ h.stack, ?_, ?_⟩
    · rw [hsame]
      exact h.total
    · rw [hsame]
      exact h.below
  · refine ⟨hstack ▸ h.stack, ?_, ?_⟩
    · rw [hnext, txsSize_append_singleton, h.total]
      omega
    · rw [hnext]
      exact fun _ => htakes.2.1

/-- The count does not wrap. -/
theorem Estimated.length_lt (h : p.Estimated limit acc) (hlimit : limit < 4294967296) :
    acc.2.1.length < 4294967296 := by
  by_cases hnil : acc.2.1 = []
  · simp [hnil]
  · have hbelow := h.below hnil
    have htotal := h.total
    have hle := p.length_le_txsSize acc.2.1
    omega

theorem Estimated.turns (h : p.Estimated limit acc) (ev : Evaluators FixedString Tx Rest)
    (time : Nat) (txs : List Tx) :
    p.Estimated limit (txs.foldl (p.turn ev limit time) acc) := by
  induction txs generalizing acc with
  | nil => exact h
  | cons tx txs ih => exact ih (h.turn ev time tx)

/-- A transaction that is taken leaves room for what the estimate leaves out. -/
def LeavesRoom (p : Producer Tx Rest) (ev : Evaluators FixedString Tx Rest) (limit time : Nat)
    (leftOut : Nat → Nat) (acc : Assembly Tx Rest) (tx : Tx) : Prop :=
  p.Takes ev limit time acc tx →
    acc.2.2 + (p.packTx tx).length + leftOut (acc.2.1.length + 1) ≤ limit + 4

/-- The loop ends with room if it starts with it and every turn leaves it. -/
theorem turns_room_iff (ev : Evaluators FixedString Tx Rest) (time : Nat) {leftOut : Nat → Nat}
    (hmono : ∀ count < 4294967295, leftOut count ≤ leftOut (count + 1))
    (hlimit : limit < 4294967296) (txs : List Tx) (h : p.Estimated limit acc) :
    (txs.foldl (p.turn ev limit time) acc).2.2 +
          leftOut (txs.foldl (p.turn ev limit time) acc).2.1.length ≤ limit + 4 ↔
      acc.2.2 + leftOut acc.2.1.length ≤ limit + 4 ∧
        Along (p.turn ev limit time) (p.LeavesRoom ev limit time leftOut) acc txs := by
  induction txs generalizing acc with
  | nil => simp [Along]
  | cons tx txs ih =>
      rw [List.foldl_cons, ih (h.turn ev time tx), Along]
      obtain ⟨-, ⟨hnot, hsame⟩ | ⟨htakes, hnext⟩⟩ := p.turn_cases ev limit time tx h.stack
      · rw [hsame]
        have hroom : p.LeavesRoom ev limit time leftOut acc tx := fun htakes => absurd htakes hnot
        simp [hroom]
      · have hcount := (h.turn ev time tx).length_lt hlimit
        rw [hnext] at hcount ⊢
        rw [List.length_append, List.length_singleton] at hcount ⊢
        have hmore := hmono acc.2.1.length (by omega)
        constructor
        · rintro ⟨hroom, hrest⟩
          exact ⟨by omega, fun _ => hroom, hrest⟩
        · rintro ⟨-, hroom, hrest⟩
          exact ⟨hroom htakes, hrest⟩

/-! ## The block -/

/-- Where the loop starts. -/
def assembly (n : Node FixedString Tx Rest) : Assembly Tx Rest :=
  (n.resetPending.openPending, [], maxBlockHeaderSize)

theorem maxBlockHeaderSize_eq : maxBlockHeaderSize = 115 := by
  rw [maxBlockHeaderSize, SignedBlockHeader.length_pack_empty]

theorem estimated_assembly (p : Producer Tx Rest) (limit : Nat) (n : Node FixedString Tx Rest) :
    p.Estimated limit (assembly n) where
  stack := by simp [assembly, Node.openPending]
  total := by
    show maxBlockHeaderSize = 115 + p.txsSize []
    rw [maxBlockHeaderSize_eq]
    rfl
  below := fun h => absurd rfl h

/-- What the turns change is in the pending session. -/
theorem turns_session (p : Producer Tx Rest) (ev : Evaluators FixedString Tx Rest)
    (limit time : Nat) (txs : List Tx) (acc : Assembly Tx Rest) (hstack : acc.1.db.stack ≠ []) :
    (txs.foldl (p.turn ev limit time) acc).1.db.stack = acc.1.db.stack ∧
      (txs.foldl (p.turn ev limit time) acc).1.pendingTxSession = acc.1.pendingTxSession := by
  induction txs generalizing acc with
  | nil => exact ⟨rfl, rfl⟩
  | cons tx txs ih =>
      obtain ⟨⟨hhere, hsession⟩, -⟩ := p.turn_cases ev limit time tx hstack
      obtain ⟨hrest, hsession'⟩ := ih (p.turn ev limit time acc tx) (hhere ▸ hstack)
      exact ⟨hrest.trans hhere, hsession'.trans hsession⟩

/-- The turns over the pending transactions. -/
def assembled (p : Producer Tx Rest) (ev : Evaluators FixedString Tx Rest) (time : Nat)
    (n : Node FixedString Tx Rest) : Assembly Tx Rest :=
  n.pendingTx.foldl (p.turn ev (p.maximumBlockSize n.objects.rest).toNat time) (assembly n)

/-- The session is dropped when the block is assembled. -/
theorem assembled_objects (p : Producer Tx Rest) (ev : Evaluators FixedString Tx Rest) (time : Nat)
    (n : Node FixedString Tx Rest) :
    (p.assembled ev time n).1.resetPending.objects = n.resetPending.objects := by
  have hstart : (assembly n).1.db.stack =
      (n.resetPending.db.revision + 1, n.resetPending.objects) :: n.resetPending.db.stack := rfl
  obtain ⟨hstack, hsession⟩ := p.turns_session ev (p.maximumBlockSize n.objects.rest).toNat time
    n.pendingTx (assembly n) (by rw [hstart]; simp)
  have hopen : (p.assembled ev time n).1.pendingTxSession = some n.resetPending.objects := hsession
  have hstack' : (p.assembled ev time n).1.db.stack = _ := hstack.trans hstart
  unfold Node.resetPending
  rw [hopen]
  show ((p.assembled ev time n).1.db.undo).cur = _
  rw [SnapshotStack.undo_of_cons hstack']
  rfl

theorem generatedBlock_eq (p : Producer Tx Rest) (ev : Evaluators FixedString Tx Rest)
    (time : Nat) (owner : FixedString) (key : Nat) (n : Node FixedString Tx Rest) :
    ∃ b : SignedBlock FixedString Tx, b.witness = owner ∧
      b.transactions = (p.assembled ev time n).2.1 ∧ p.generatedBlock ev time owner key n =
        (p.generatedHeader n.resetPending.objects.rest b key).pack ++
          packTransactions p.packTx b.transactions := by
  refine ⟨(n.assembleBlock (p.evaluators ev) maxBlockHeaderSize time owner key).2, rfl, rfl, ?_⟩
  rw [← p.assembled_objects ev time n]
  rfl

/-- The estimate with what it leaves out is the size and the four bytes. -/
theorem generatedBlock_length (p : Producer Tx Rest) (ev : Evaluators FixedString Tx Rest)
    (time : Nat) (owner : FixedString) (key : Nat) (n : Node FixedString Tx Rest) :
    (p.generatedBlock ev time owner key n).length + 4 = (p.assembled ev time n).2.2 +
      p.leftOut n.resetPending.objects.rest owner (p.assembled ev time n).2.1.length := by
  have htotal := ((p.estimated_assembly (p.maximumBlockSize n.objects.rest).toNat n).turns ev time
    n.pendingTx).total
  obtain ⟨b, hwitness, htxs, hblock⟩ := p.generatedBlock_eq ev time owner key n
  rw [hblock, List.length_append, p.generatedHeader_length, length_packTransactions, hwitness, htxs]
  show 111 + _ + _ + (_ + p.txsSize _) + 4 = _
  unfold leftOut assembled at *
  omega

/-- No more is taken than is pending. -/
theorem turns_length_le (p : Producer Tx Rest) (ev : Evaluators FixedString Tx Rest)
    (limit time : Nat) (txs : List Tx) (acc : Assembly Tx Rest) (hstack : acc.1.db.stack ≠ []) :
    (txs.foldl (p.turn ev limit time) acc).2.1.length ≤ acc.2.1.length + txs.length := by
  induction txs generalizing acc with
  | nil => exact Nat.le_refl _
  | cons tx txs ih =>
      obtain ⟨⟨hsame, -⟩, hturn⟩ := p.turn_cases ev limit time tx hstack
      have hrest := ih (p.turn ev limit time acc tx) (hsame ▸ hstack)
      have hhere : (p.turn ev limit time acc tx).2.1.length ≤ acc.2.1.length + 1 := by
        rcases hturn with ⟨-, hnext⟩ | ⟨-, hnext⟩ <;> simp [hnext]
      rw [List.foldl_cons, List.length_cons]
      omega

/-- Five bytes are always left: a name of three and a count of one or two, with
no extensions. -/
theorem generatedBlock_fits_of_short (p : Producer Tx Rest) (ev : Evaluators FixedString Tx Rest)
    (time : Nat) (owner : FixedString) (key : Nat) (n : Node FixedString Tx Rest)
    (hshort : ∀ count ≤ n.pendingTx.length, p.leftOut n.resetPending.objects.rest owner count ≤ 5)
    (hlimit : 116 ≤ (p.maximumBlockSize n.objects.rest).toNat) :
    (p.generatedBlock ev time owner key n).length ≤ (p.maximumBlockSize n.objects.rest).toNat := by
  have hestimated : p.Estimated (p.maximumBlockSize n.objects.rest).toNat (p.assembled ev time n) :=
    (p.estimated_assembly _ n).turns ev time n.pendingTx
  have hcount : (p.assembled ev time n).2.1.length ≤ 0 + n.pendingTx.length :=
    p.turns_length_le ev _ time n.pendingTx (assembly n) (p.estimated_assembly 0 n).stack
  have hleft := hshort (p.assembled ev time n).2.1.length (by omega)
  have hsize := p.generatedBlock_length ev time owner key n
  by_cases hnil : (p.assembled ev time n).2.1 = []
  · have htotal : (p.assembled ev time n).2.2 = 115 := by
      rw [hestimated.total, hnil]
      rfl
    omega
  · have hbelow := hestimated.below hnil
    omega

/-- **A produced block fits** if an empty one does and every transaction that is
taken leaves room for what the estimate leaves out, and only then. It fits
whatever is pending if the estimate never leaves out more than five bytes. -/
theorem generated_block_fits_iff (p : Producer Tx Rest) (ev : Evaluators FixedString Tx Rest)
    (time : Nat) (owner : FixedString) (key : Nat) (n : Node FixedString Tx Rest) :
    ((p.generatedBlock ev time owner key n).length ≤ (p.maximumBlockSize n.objects.rest).toNat ↔
      maxBlockHeaderSize + p.leftOut n.resetPending.objects.rest owner 0 ≤
          (p.maximumBlockSize n.objects.rest).toNat + 4 ∧
        Along (p.turn ev (p.maximumBlockSize n.objects.rest).toNat time)
          (p.LeavesRoom ev (p.maximumBlockSize n.objects.rest).toNat time
            (p.leftOut n.resetPending.objects.rest owner)) (assembly n) n.pendingTx) ∧
      ((∀ count ≤ n.pendingTx.length, p.leftOut n.resetPending.objects.rest owner count ≤ 5) →
        116 ≤ (p.maximumBlockSize n.objects.rest).toNat →
        (p.generatedBlock ev time owner key n).length ≤
          (p.maximumBlockSize n.objects.rest).toNat) := by
  refine ⟨?_, p.generatedBlock_fits_of_short ev time owner key n⟩
  have hlimit : (p.maximumBlockSize n.objects.rest).toNat < 4294967296 :=
    (p.maximumBlockSize n.objects.rest).toNat_lt
  have hmono : ∀ count < 4294967295, p.leftOut n.resetPending.objects.rest owner count ≤
      p.leftOut n.resetPending.objects.rest owner (count + 1) := by
    intro count hcount
    unfold leftOut
    refine Nat.add_le_add_left (length_packUnsigned_mono ?_) _
    rw [Nat.mod_eq_of_lt (by omega), Nat.mod_eq_of_lt (by omega)]
    omega
  have hsize := p.generatedBlock_length ev time owner key n
  have hroom := turns_room_iff ev time hmono hlimit n.pendingTx
    (p.estimated_assembly _ n)
  refine Iff.trans ?_ hroom
  unfold assembled at hsize
  omega

end Producer

/-! ### A full block -/

/-- The witness `gamebank`. -/
def soleProducer : FixedString := .ofString [103, 97, 109, 101, 98, 97, 110, 107]

/-- A transaction is the number of bytes it has besides thirteen for the fields
of its header. No extension is due. -/
def plainProducer : Producer Nat Unit where
  packTx size := List.replicate (size + 13) 0
  packTx_ne_nil size := by simp
  idBytes _ := Vector.replicate 20 0
  calculateMerkleRoot _ := Vector.replicate 20 0
  sign _ _ := Vector.replicate 65 0
  maximumBlockSize _ := 131072
  runningVersion _ _ := blockchainVersion
  hardforkVersionVote _ _ := 0
  hardforkTimeVote _ _ := 0
  currentHardforkVersion _ := 0
  lastHardfork _ := 0
  hardforkVersions _ := 0
  hardforkTimes _ := 0

/-- Every transaction applies, and the witness produces every block. -/
def applyAll : Evaluators FixedString Nat Unit where
  hasWitness _ _ := true
  signingKey _ _ := 7
  signee _ := 7
  scheduledWitnesses _ := [soleProducer]
  prepare _ _ := ((), none)
  execute _ _ := ((), none)
  recordMissed _ _ := ((), none)
  finish _ _ := ((), none)
  applyTransaction _ _ := ((), none)
  isKnownTransaction _ _ := false
  packSize size := size + 13
  blockSize _ := 0
  maximumBlockSize _ := 131072
  expiration _ := 4000000
  headerHash _ _ _ _ _ := 9

/-- A node at the block 100 with two pending transactions of 65478 bytes. -/
def fullNode : Node FixedString Nat Unit where
  db :=
    { cur :=
        { headBlockNumber := 100, headBlockId := ⟨100, 1⟩, time := 300, currentAslot := 100,
          lastIrreversibleBlockNum := 90, lastConfirmedBlockNum := fun _ => 0,
          lastAslot := fun _ => 0, applied := [], rest := () }
      stack := []
      revision := 100 }
  forkDb := ForkDatabase.empty
  blockLog := []
  pendingTxSession := none
  pendingTx := [65465, 65465]
  poppedTx := []
  committed := 90

/-- The estimate is one byte below the limit, the block six above it. -/
theorem full_block_too_big :
    fullNode.objects.getScheduledWitness applyAll (fullNode.objects.getSlotAtTime 303) =
        some soleProducer ∧
      ¬(plainProducer.generatedBlock applyAll 303 soleProducer 7 fullNode).length ≤
        (plainProducer.maximumBlockSize fullNode.objects.rest).toNat := by
  refine ⟨by decide +kernel, fun h => ?_⟩
  have hname : soleProducer.string.length = 8 := by decide +kernel
  have hextensions : plainProducer.headerExtensions () soleProducer = [] := by decide +kernel
  have hestimated := plainProducer.estimated_assembly 131072 fullNode
  have hpack : ∀ size, (plainProducer.packTx size).length = size + 13 :=
    fun size => List.length_replicate
  -- both transactions are taken
  have htakes : ∀ acc : Producer.Assembly Nat Unit, acc.2.2 + 65478 < 131072 →
      plainProducer.Takes applyAll 131072 303 acc 65465 := by
    intro acc hlt
    refine ⟨by decide, ?_, rfl⟩
    rw [hpack]
    exact hlt
  have hturn : ∀ acc : Producer.Assembly Nat Unit, acc.1.db.stack ≠ [] →
      acc.2.2 + 65478 < 131072 → (plainProducer.turn applyAll 131072 303 acc 65465).2 =
        (acc.2.1 ++ [65465], acc.2.2 + 65478) := by
    intro acc hstack hlt
    obtain ⟨-, ⟨hnot, -⟩ | ⟨-, hnext⟩⟩ := plainProducer.turn_cases applyAll 131072 303 65465 hstack
    · exact absurd (htakes acc hlt) hnot
    · rw [hnext, hpack]
  have hstart : (Producer.assembly fullNode).2 = ([], 115) := by
    show ([], maxBlockHeaderSize) = _
    rw [Producer.maxBlockHeaderSize_eq]
  have hfirst := hturn _ hestimated.stack (by rw [hstart]; decide)
  rw [hstart] at hfirst
  simp only [List.nil_append, Nat.reduceAdd] at hfirst
  have hsecond := hturn _ (hestimated.turn applyAll 303 65465).stack (by rw [hfirst]; decide)
  rw [hfirst] at hsecond
  simp only [List.cons_append, List.nil_append, Nat.reduceAdd] at hsecond
  have hsize := plainProducer.generatedBlock_length applyAll 303 soleProducer 7 fullNode
  have hlimit : (plainProducer.maximumBlockSize fullNode.objects.rest).toNat = 131072 := rfl
  have hassembled : (plainProducer.assembled applyAll 303 fullNode).2 =
      ([65465, 65465], 131071) := by
    unfold Producer.assembled
    rw [hlimit, show fullNode.pendingTx = [65465, 65465] from rfl, List.foldl_cons, List.foldl_cons,
      List.foldl_nil]
    exact hsecond
  have hcount : (packUnsigned (2 % 4294967296)).length = 1 := length_packUnsigned_of_lt (by decide)
  have hrest : fullNode.resetPending.objects.rest = () := rfl
  rw [hassembled, hrest] at hsize
  unfold Producer.leftOut at hsize
  rw [hextensions, hname] at hsize
  have hnone : extensionsSize [] = 0 := rfl
  have hlength : [65465, 65465].length = 2 := rfl
  rw [hnone, hlength, hcount] at hsize
  omega

end Gamebank.Chain
