import Gamebank.Chain.Revision
import Gamebank.Lib.Checked

/-!
# Blocks by number

`fetch_block_by_number` takes the block of the fork database when there is
exactly one of that number, and else the one in the block log.
`chain.get_block_hash` hands what is found to a contract. So the outcome of a
contract can depend on the blocks of other branches that a node has heard of:
two nodes of one chain agree exactly if each block that one of them holds
alone under its number is held alone by the other as well, or logged
(`fetchBlockByNumber_agrees_iff`).
-/

namespace Gamebank.Chain

open Gamebank.Lib

universe u v w

variable {Name Tx : Type} {Rest : Type w}

/-- The hashes that `get_block_hash` takes of a block: `ripemd160` of its digest,
and of the merkle root of its transactions. -/
structure BlockHashes (Name Tx : Type) where
  ofDigest : SignedBlock Name Tx → String
  ofMerkleRoot : SignedBlock Name Tx → String

namespace Node

/-- The block that the fork database holds alone under its number. -/
def cachedAlone (n : Node Name Tx Rest) (num : Nat) : Option (SignedBlock Name Tx) :=
  match n.forkDb.fetchBlockByNumber num with
  | [item] => some item.data
  | _ => none

/-- `fetch_block_by_number`. -/
def fetchBlockByNumber (n : Node Name Tx Rest) (num : Nat) : Option (SignedBlock Name Tx) :=
  match n.cachedAlone num with
  | some b => some b
  | none => n.readBlockByNum num

/-- The number of the `i`-th block that `get_block_hash` reads, a `uint32_t`. -/
def blockNumAt (blockNum interval : Int) (i : Nat) : Nat :=
  ((blockNum - i * interval) % 4294967296).toNat

/-- What one turn of the loop of `get_block_hash` computes. -/
def hashBlock (hashes : BlockHashes Name Tx) (n : Node Name Tx Rest) (num : Nat) :
    Except String String :=
  match n.fetchBlockByNumber num with
  | none => .error "block data not found"
  | some b => .ok (if b.transactions.isEmpty then hashes.ofDigest b else hashes.ofMerkleRoot b)

/-- `get_block_hash`: every hash replaces the one before. -/
def getBlockHash (hashes : BlockHashes Name Tx) (n : Node Name Tx Rest)
    (blockNum blockCount interval : Int) : Except String String := do
  ensure (0 < blockCount && blockCount ≤ 100) "block_count must > 0 && <= 100"
  ensure (0 < blockNum && blockNum ≤ n.headBlockNum) "block_num must > 0 && <= head_block_num"
  ensure (blockCount ≤ blockNum) "block_num must > block_count"
  ensure (1 ≤ interval && interval ≤ blockCount) "interval value error"
  (List.range blockCount.toNat).foldlM
    (fun _ i => n.hashBlock hashes (blockNumAt blockNum interval i)) ""

variable {m n : Node Name Tx Rest}

/-- A block that `m` holds alone under the number `num` is held alone by `n`, or
`n` holds no block alone and has this one in its log. -/
def Backed (m n : Node Name Tx Rest) (num : Nat) : Prop :=
  ∀ b, m.cachedAlone num = some b →
    n.cachedAlone num = some b ∨ (n.cachedAlone num = none ∧ n.readBlockByNum num = some b)

/-- Both nodes find the same block. -/
theorem fetchBlockByNumber_eq_iff (hlog : m.blockLog = n.blockLog) (num : Nat) :
    m.fetchBlockByNumber num = n.fetchBlockByNumber num ↔ Backed m n num ∧ Backed n m num := by
  have hread : m.readBlockByNum num = n.readBlockByNum num := by
    unfold readBlockByNum
    rw [hlog]
  unfold fetchBlockByNumber Backed
  rw [hread]
  cases hm : m.cachedAlone num with
  | none =>
      cases hn : n.cachedAlone num with
      | none => simp
      | some b => simp
  | some a =>
      cases hn : n.cachedAlone num with
      | none => simp [eq_comm]
      | some b => simp [eq_comm]

/-- The loop reads the same blocks. -/
theorem hashBlock_loop_congr (hashes : BlockHashes Name Tx) {blockNum interval : Int} (l : List Nat)
    (acc : String) (hreads : ∀ i ∈ l, m.fetchBlockByNumber (blockNumAt blockNum interval i) =
      n.fetchBlockByNumber (blockNumAt blockNum interval i)) :
    l.foldlM (fun _ i => m.hashBlock hashes (blockNumAt blockNum interval i)) acc =
      l.foldlM (fun _ i => n.hashBlock hashes (blockNumAt blockNum interval i)) acc := by
  induction l generalizing acc with
  | nil => rfl
  | cons i rest ih =>
      have hhash : m.hashBlock hashes (blockNumAt blockNum interval i) =
          n.hashBlock hashes (blockNumAt blockNum interval i) := by
        rw [hashBlock, hashBlock, hreads i List.mem_cons_self]
      rw [List.foldlM_cons, List.foldlM_cons, hhash]
      congr 1
      funext acc'
      exact ih acc' fun j hj => hreads j (List.mem_cons_of_mem i hj)

/-- What `get_block_hash` answers depends on the blocks it reads. -/
theorem getBlockHash_congr (hashes : BlockHashes Name Tx) {blockNum blockCount interval : Int}
    (hhead : m.headBlockNum = n.headBlockNum)
    (hreads : 0 < blockNum → blockNum ≤ m.headBlockNum → 1 ≤ interval → interval ≤ blockCount →
      blockCount ≤ 100 → ∀ i < blockCount.toNat,
        m.fetchBlockByNumber (blockNumAt blockNum interval i) =
          n.fetchBlockByNumber (blockNumAt blockNum interval i)) :
    m.getBlockHash hashes blockNum blockCount interval =
      n.getBlockHash hashes blockNum blockCount interval := by
  unfold getBlockHash
  rw [← hhead]
  refine ensure_bind_congr fun hcount => ensure_bind_congr fun hnum => ensure_bind_congr fun _ =>
    ensure_bind_congr fun hinterval => ?_
  rw [Bool.and_eq_true, decide_eq_true_eq, decide_eq_true_eq] at hcount hnum hinterval
  have hsame := hreads hnum.1 hnum.2 hinterval.1 hinterval.2 hcount.2
  exact hashBlock_loop_congr hashes _ "" fun i hi => hsame i (List.mem_range.mp hi)

/-- A block number that is read is one of the chain, zero, or at the far end of
the numbers, where the subtraction has wrapped. -/
theorem blockNumAt_cases {blockNum blockCount interval : Int} {head i : Nat} (hpos : 0 < blockNum)
    (hhead : blockNum ≤ head) (hsmall : head < 4294967296) (hone : 1 ≤ interval)
    (hcount : interval ≤ blockCount) (hhundred : blockCount ≤ 100) (hi : i < blockCount.toNat) :
    (1 ≤ blockNumAt blockNum interval i ∧ blockNumAt blockNum interval i ≤ head) ∨
      blockNumAt blockNum interval i = 0 ∨ 4294957396 ≤ blockNumAt blockNum interval i := by
  have hle : (i : Int) * interval ≤ 99 * 100 := by
    apply Int.mul_le_mul <;> omega
  have hnonneg : 0 ≤ (i : Int) * interval := Int.mul_nonneg (by omega) (by omega)
  unfold blockNumAt
  omega

/-- Block zero is no block. -/
theorem fetchBlockByNumber_zero (n : Node Name Tx Rest) : n.fetchBlockByNumber 0 = none := by
  have hcached : n.forkDb.fetchBlockByNumber 0 = [] := by
    unfold ForkDatabase.fetchBlockByNumber
    rw [List.filter_eq_nil_iff]
    intro item _
    simp [ForkItem.num, SignedBlock.blockNum]
  have hread : n.readBlockByNum 0 = none := by
    unfold readBlockByNum
    rw [List.find?_eq_none]
    intro b _
    simp [SignedBlock.blockNum]
  unfold fetchBlockByNumber cachedAlone
  rw [hcached]
  exact hread

/-- **Blocks by number on two nodes.** Of two nodes with one object database and
one block log, both find the same block under every number of the chain if and
only if a block that one of them holds alone under its number is held alone by
the other as well, or logged. Then `get_block_hash` answers the same on both,
as long as neither knows blocks at the far end of the numbers. -/
theorem fetchBlockByNumber_agrees_iff (m n : Node Name Tx Rest) (hobjects : m.objects = n.objects)
    (hlog : m.blockLog = n.blockLog) :
    ((∀ num, 1 ≤ num → num ≤ m.headBlockNum →
      m.fetchBlockByNumber num = n.fetchBlockByNumber num) ↔
      ∀ num, 1 ≤ num → num ≤ m.headBlockNum → Backed m n num ∧ Backed n m num) ∧
    ((∀ num, 1 ≤ num → num ≤ m.headBlockNum → Backed m n num ∧ Backed n m num) →
      m.headBlockNum < 4294967296 →
      (∀ num, 4294957396 ≤ num → m.fetchBlockByNumber num = n.fetchBlockByNumber num) →
      ∀ hashes blockNum blockCount interval,
        m.getBlockHash hashes blockNum blockCount interval =
          n.getBlockHash hashes blockNum blockCount interval) := by
  have hiff : ∀ num, m.fetchBlockByNumber num = n.fetchBlockByNumber num ↔
      Backed m n num ∧ Backed n m num := fetchBlockByNumber_eq_iff hlog
  refine ⟨⟨fun h num hone hhead => (hiff num).mp (h num hone hhead),
    fun h num hone hhead => (hiff num).mpr (h num hone hhead)⟩, ?_⟩
  intro hbacked hsmall hfar hashes blockNum blockCount interval
  refine getBlockHash_congr hashes (congrArg Objects.headBlockNumber hobjects) ?_
  intro hpos hhead hone hcount hhundred i hi
  rcases blockNumAt_cases hpos hhead hsmall hone hcount hhundred
    hi with ⟨hlow, hhigh⟩ | hzero | hbig
  · exact (hiff _).mpr (hbacked _ hlow hhigh)
  · rw [hzero, fetchBlockByNumber_zero, fetchBlockByNumber_zero]
  · exact hfar _ hbig

end Node

/-! ### One scheduled witness -/

/-- A node that has applied block 101. -/
def aheadNode : Node Nat Nat (List Nat) :=
  (openedAt 100 79 []).run soloWitness [.pushBlock (soloBlock 101 1 2 [])]

/-- The same node after it has heard of another block 101. -/
def sideNode : Node Nat Nat (List Nat) :=
  aheadNode.run soloWitness [.pushBlock (soloBlock 101 1 3 [])]

/-- The same node after block 100, which is logged, has been dropped from the
fork database. -/
def prunedNode : Node Nat Nat (List Nat) :=
  { aheadNode with forkDb := aheadNode.forkDb.remove ⟨100, 1⟩ }

theorem aheadNode_cachedAlone (num : Nat) :
    aheadNode.cachedAlone num =
      if num = 101 then some (soloBlock 101 1 2 [])
      else if num = 100 then some (soloBlock 100 0 1 []) else none := by
  have hindex : aheadNode.forkDb.index =
      [⟨1, soloBlock 101 1 2 [], some 0⟩, ⟨0, soloBlock 100 0 1 [], none⟩] := rfl
  have h101 : (soloBlock 101 1 2 []).blockNum = 101 := rfl
  have h100 : (soloBlock 100 0 1 []).blockNum = 100 := rfl
  unfold Node.cachedAlone ForkDatabase.fetchBlockByNumber
  rw [hindex]
  by_cases hhigh : num = 101
  · subst hhigh
    rfl
  · by_cases hlow : num = 100
    · subst hlow
      rfl
    · simp [ForkItem.num, h101, h100, hhigh, hlow, Ne.symm hhigh, Ne.symm hlow]

theorem prunedNode_cachedAlone (num : Nat) :
    prunedNode.cachedAlone num = if num = 101 then some (soloBlock 101 1 2 []) else none := by
  have hindex : prunedNode.forkDb.index = [⟨1, soloBlock 101 1 2 [], some 0⟩] := rfl
  have h101 : (soloBlock 101 1 2 []).blockNum = 101 := rfl
  unfold Node.cachedAlone ForkDatabase.fetchBlockByNumber
  rw [hindex]
  by_cases hhigh : num = 101
  · subst hhigh
    rfl
  · simp [ForkItem.num, h101, hhigh, Ne.symm hhigh]

/-- Contracts on a node whose fork database has been pruned get the same answers. -/
theorem fetchBlockByNumber_agrees_pruned :
    aheadNode.objects = prunedNode.objects ∧ aheadNode.forkDb ≠ prunedNode.forkDb ∧
    ∀ hashes blockNum blockCount interval,
      aheadNode.getBlockHash hashes blockNum blockCount interval =
        prunedNode.getBlockHash hashes blockNum blockCount interval := by
  have hread : prunedNode.readBlockByNum 100 = some (soloBlock 100 0 1 []) := rfl
  have hbacked :
    ∀ num, Node.Backed aheadNode prunedNode num ∧ Node.Backed prunedNode aheadNode num := by
    intro num
    unfold Node.Backed
    rw [aheadNode_cachedAlone, prunedNode_cachedAlone]
    by_cases hhigh : num = 101
    · simp [hhigh]
    · by_cases hlow : num = 100
      · simp [hlow, hread]
      · simp [hhigh, hlow]
  have hlog : aheadNode.blockLog = prunedNode.blockLog := rfl
  refine ⟨rfl, by decide +kernel, ?_⟩
  refine (Node.fetchBlockByNumber_agrees_iff aheadNode prunedNode rfl hlog).2
    (fun num _ _ => hbacked num) (by decide +kernel) fun num _ => ?_
  exact (Node.fetchBlockByNumber_eq_iff hlog num).mpr (hbacked num)

/-- The node that has heard of another block 101 does not find the one it has
applied, and the contract there gets an error. -/
theorem side_block_hides_block :
    aheadNode.objects = sideNode.objects ∧ aheadNode.blockLog = sideNode.blockLog ∧
    aheadNode.headBlockNum = 101 ∧
    aheadNode.fetchBlockByNumber 101 = some (soloBlock 101 1 2 []) ∧
    sideNode.fetchBlockByNumber 101 = none ∧
    ∀ hashes, aheadNode.getBlockHash hashes 101 1 1 = .ok (hashes.ofDigest (soloBlock 101 1 2 [])) ∧
      sideNode.getBlockHash hashes 101 1 1 = .error "block data not found" :=
  ⟨rfl, rfl, rfl, rfl, rfl, fun _ => ⟨rfl, rfl⟩⟩

end Gamebank.Chain
