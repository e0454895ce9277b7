import Gamebank.Lib.HashTree
import Gamebank.Protocol.Asset

/-!
# The Merkle root of a block

`signed_block::calculate_merkle_root` of `block.cpp`. A level is compacted in
the array it is read from: the pair at `i` and `i + 1` is hashed into place
`k`, which is never beyond `i`. The hash functions are parameters. A read or
write outside the array, and a loop that does not end, give `none`.
-/

namespace Gamebank.Protocol

open Gamebank.Lib

/-- The hash functions. -/
structure MerkleHashes (Tx Digest Checksum : Type) where
  /-- `signed_transaction::merkle_digest`. -/
  merkleDigest : Tx → Digest
  /-- `digest_type::hash` of a pair. -/
  hashPair : Digest → Digest → Digest
  /-- `checksum_type::hash`. -/
  hashChecksum : Digest → Checksum
  /-- `checksum_type()`. -/
  noChecksum : Checksum

/-- The transactions of a block. A vector is unpacked only with fewer than
`MAX_ARRAY_ALLOC_SIZE` bytes in its elements, so 32 bits count them. -/
structure Transactions (Tx : Type) where
  all : List Tx
  counted : all.length < 4294967296

variable {Tx Digest Checksum : Type}

/-! ## The loops -/

/-- `ids[k] = d`. -/
def writeAt (ids : List Digest) (k : Nat) (d : Digest) : Option (List Digest) :=
  if k < ids.length then some (ids.set k d) else none

/-- The loop over the pairs. -/
def hashPairs (hashPair : Digest → Digest → Digest) (iMax : Nat) :
    Nat → Nat → Nat → List Digest → Option (Nat × List Digest)
  | 0, _, _, _ => none
  | fuel + 1, i, k, ids =>
      if i < iMax then do
        let left ← ids[i]?
        let right ← ids[i + 1]?
        let ids ← writeAt ids k (hashPair left right)
        hashPairs hashPair iMax fuel (i + 2) (k + 1) ids
      else some (k, ids)

/-- The body of the outer loop, for a level of `current` digests. -/
def compactLevel (hashPair : Digest → Digest → Digest) (current : Nat) (ids : List Digest) :
    Option (Nat × List Digest) := do
  let iMax := current - current % 2
  let (k, ids) ← hashPairs hashPair iMax (iMax + 1) 0 0 ids
  if current % 2 = 1 then
    let last ← ids[iMax]?
    let ids ← writeAt ids k last
    return (k + 1, ids)
  else return (k, ids)

/-- The outer loop. -/
def compactLevels (hashPair : Digest → Digest → Digest) :
    Nat → Nat → List Digest → Option (List Digest)
  | 0, _, _ => none
  | fuel + 1, current, ids =>
      if 1 < current then do
        let (current, ids) ← compactLevel hashPair current ids
        compactLevels hashPair fuel current ids
      else some ids

/-- `calculate_merkle_root`. -/
def calculateMerkleRoot (h : MerkleHashes Tx Digest Checksum) (txs : Transactions Tx) :
    Option Checksum :=
  if txs.all.length = 0 then some h.noChecksum
  else do
    let ids := txs.all.map h.merkleDigest
    let ids ← compactLevels h.hashPair (ids.length + 1) ids.length ids
    let root ← ids[0]?
    return h.hashChecksum root

/-- The recursive definition of the root: levels are formed until one digest
is left, which is hashed once more. -/
def merkleRoot (h : MerkleHashes Tx Digest Checksum) (txs : Transactions Tx) : Checksum :=
  match reduce h.hashPair (txs.all.map h.merkleDigest) with
  | none => h.noChecksum
  | some root => h.hashChecksum root

/-! ## The loops form the next level -/

variable (hashPair : Digest → Digest → Digest)

theorem writeAt_append {done rest : List Digest} {a d : Digest} {k : Nat} (hk : done.length = k) :
    writeAt (done ++ a :: rest) k d = some (done ++ d :: rest) := by
  subst hk
  rw [writeAt, if_pos (by simp), List.set_append_right _ _ (Nat.le_refl _), Nat.sub_self,
    List.set_cons_zero]

/-- After `k` pairs the array starts with their hashes, and from `i` on it is
as it was: a turn reads the pair at `i` before anything is written there. -/
theorem hashPairs_spec (done gap level tail : List Digest) (iMax fuel : Nat)
    (hgap : gap.length = done.length) (hmax : iMax = done.length + gap.length + level.length)
    (heven : level.length % 2 = 0) (hfuel : level.length < fuel) :
    ∃ junk, junk.length = gap.length + level.length - level.length / 2 ∧
      hashPairs hashPair iMax fuel (done.length + gap.length) done.length
        (done ++ gap ++ level ++ tail) =
          some (done.length + level.length / 2, done ++ pairUp hashPair level ++ junk ++ tail) := by
  fun_induction pairUp hashPair level generalizing done gap fuel with
  | case1 a b rest ih =>
      obtain ⟨fuel, rfl⟩ : ∃ n, fuel = n + 1 := ⟨fuel - 1, by omega⟩
      simp only [List.length_cons] at hmax heven hfuel
      have hleft : (done ++ gap ++ a :: b :: rest ++ tail)[done.length + gap.length]? = some a := by
        rw [List.append_assoc, List.getElem?_append_right (by simp)]
        simp
      have hright : (done ++ gap ++ a :: b :: rest ++ tail)[done.length + gap.length + 1]? =
          some b := by
        rw [List.append_assoc, List.getElem?_append_right (by simp)]
        simp [show done.length + gap.length + 1 - (done.length + gap.length) = 1 by omega]
      -- the place of the new digest is the first of the gap, or of the pair itself
      obtain ⟨x, gap', hx, hgap'⟩ : ∃ x gap', gap ++ [a, b] = x :: gap' ∧
          gap'.length = (done ++ [x]).length := by
        cases gap with
        | nil => exact ⟨a, [b], rfl, by simp [← hgap]⟩
        | cons g gap => exact ⟨g, gap ++ [a, b], rfl, by simp [← hgap]⟩
      have hsplit :
          done ++ gap ++ a :: b :: rest ++ tail = done ++ x :: (gap' ++ rest ++ tail) := by
        have := congrArg (fun l => done ++ (l ++ (rest ++ tail))) hx
        simpa using this
      have hlen : gap'.length = gap.length + 1 := by
        have := congrArg List.length hx
        simp at this
        omega
      obtain ⟨junk, hjunk, hrun⟩ := ih (done ++ [hashPair a b]) gap' fuel
        (by simpa using hgap') (by simp only [List.length_append, List.length_singleton]; omega)
        (by omega) (by omega)
      refine ⟨junk, by simp; omega, ?_⟩
      rw [hashPairs, if_pos (by omega), hleft, hright]
      simp only [Option.bind_eq_bind, Option.bind_some]
      rw [hsplit, writeAt_append rfl]
      simp only [List.length_append, List.length_cons, List.length_nil, List.append_assoc,
        List.cons_append, List.nil_append, hlen, Option.bind_some, Nat.zero_add] at hrun ⊢
      rw [show done.length + gap.length + 2 = done.length + 1 + (gap.length + 1) by omega, hrun]
      congr 2
      omega
  | case2 a => simp at heven
  | case3 =>
      obtain ⟨fuel, rfl⟩ : ∃ n, fuel = n + 1 := ⟨fuel - 1, by omega⟩
      refine ⟨gap, by simp, ?_⟩
      rw [hashPairs, if_neg (by simp at hmax; omega)]
      simp

/-- **One level up**: the array starts with the next level. -/
theorem compactLevel_spec {level : List Digest} (tail : List Digest) (h : 1 < level.length) :
    ∃ junk, compactLevel hashPair level.length (level ++ tail) =
      some ((pairUp hashPair level).length, pairUp hashPair level ++ junk) := by
  obtain ⟨pairs, odd, hlevel, heven, hodd⟩ : ∃ pairs odd : List Digest, level = pairs ++ odd ∧
      pairs.length = level.length - level.length % 2 ∧ odd.length = level.length % 2 := by
    refine ⟨level.take (level.length - level.length % 2), level.drop _,
      (List.take_append_drop _ level).symm, ?_, ?_⟩
    · rw [List.length_take]
      omega
    · rw [List.length_drop]
      omega
  obtain ⟨junk, hjunk, hrun⟩ := hashPairs_spec hashPair [] [] pairs (odd ++ tail) pairs.length
    (pairs.length + 1) rfl (by simp) (by omega) (by omega)
  have hnext : pairUp hashPair level = pairUp hashPair pairs ++ odd := by
    rw [hlevel, pairUp_append (by omega)]
    congr 1
    match odd, hodd with
    | [], _ => rfl
    | [a], _ => rfl
    | _ :: _ :: _, hodd =>
        simp only [List.length_cons] at hodd
        omega
  have hup : (pairUp hashPair pairs).length = pairs.length / 2 := by
    rw [length_pairUp]
    omega
  simp only [List.length_nil, List.nil_append, Nat.zero_add] at hrun hjunk
  unfold compactLevel
  dsimp only
  rw [← heven, hlevel, List.append_assoc, hrun]
  simp only [Option.bind_eq_bind, Option.bind_some]
  rw [← hlevel, hnext]
  match odd, hodd with
  | [], hodd =>
      rw [if_neg (by simp at hodd; omega)]
      exact ⟨junk ++ tail, by simp [hup]⟩
  | [last], hodd =>
      rw [if_pos (by simpa using hodd.symm)]
      have hread : (pairUp hashPair pairs ++ junk ++ ([last] ++ tail))[pairs.length]? =
          some last := by
        have hlen : (pairUp hashPair pairs ++ junk).length = pairs.length := by
          rw [List.length_append]
          omega
        rw [List.getElem?_append_right (by omega), hlen, Nat.sub_self]
        rfl
      -- the place of the last digest is in the junk, as there was a pair
      obtain ⟨x, junk, rfl⟩ : ∃ x rest, junk = x :: rest := by
        refine List.exists_cons_of_ne_nil fun hnil => ?_
        rw [hnil] at hjunk
        simp only [List.length_nil, List.length_singleton] at hjunk hodd
        omega
      refine ⟨junk ++ [last] ++ tail, ?_⟩
      rw [hread]
      simp only [Option.bind_some, List.append_assoc, List.cons_append]
      rw [writeAt_append hup]
      simp [hup]
  | _ :: _ :: _, hodd =>
      simp only [List.length_cons] at hodd
      omega

/-- The outer loop leaves the reduced digest in front. -/
theorem compactLevels_spec {level : List Digest} (tail : List Digest) {fuel : Nat} (h : level ≠ [])
    (hfuel : level.length < fuel) : ∃ root rest, reduce hashPair level = some root ∧
      compactLevels hashPair fuel level.length (level ++ tail) = some (root :: rest) := by
  induction fuel generalizing level tail with
  | zero => omega
  | succ fuel ih =>
      rw [compactLevels]
      by_cases hmany : 1 < level.length
      · obtain ⟨junk, hlevel⟩ := compactLevel_spec hashPair tail hmany
        have hshorter : (pairUp hashPair level).length < level.length := length_pairUp_lt hmany
        have hne : pairUp hashPair level ≠ [] := by
          intro hnil
          have := length_pairUp hashPair level
          rw [hnil, List.length_nil] at this
          omega
        obtain ⟨root, rest, hroot, hrun⟩ := ih junk hne (by omega)
        refine ⟨root, rest, by rw [reduce_of_lt hmany, hroot], ?_⟩
        rw [if_pos hmany, hlevel]
        exact hrun
      · match level, h with
        | [a], _ => exact ⟨a, tail, reduce_singleton a, by rw [if_neg hmany]; rfl⟩
        | _ :: _ :: _, _ => simp at hmany

/-! ## The root -/

/-- The loops compute the root. -/
theorem calculateMerkleRoot_eq (h : MerkleHashes Tx Digest Checksum) (txs : Transactions Tx) :
    calculateMerkleRoot h txs = some (merkleRoot h txs) := by
  unfold calculateMerkleRoot merkleRoot
  by_cases hnil : txs.all.length = 0
  · rw [if_pos hnil, List.eq_nil_of_length_eq_zero hnil, List.map_nil, reduce_nil]
  · rw [if_neg hnil]
    have hne : txs.all.map h.merkleDigest ≠ [] := by
      intro hmap
      exact hnil (by rw [List.map_eq_nil_iff.mp hmap]; rfl)
    obtain ⟨root, rest, hroot, hrun⟩ :=
      compactLevels_spec h.hashPair [] hne (Nat.lt_succ_self _)
    rw [List.append_nil] at hrun
    rw [hroot]
    simp only [hrun, Option.bind_eq_bind, Option.bind_some]
    rfl

/-- The hash functions are injective, and no transaction's digest is that of
an inner node. -/
structure MerkleHashes.CollisionFree (h : MerkleHashes Tx Digest Checksum) : Prop where
  pairs : ∀ a b c d, h.hashPair a b = h.hashPair c d → a = c ∧ b = d
  checksums : ∀ a b, h.hashChecksum a = h.hashChecksum b → a = b
  leaves : ∀ tx a b, h.merkleDigest tx ≠ h.hashPair a b

/-- Without collisions, blocks with transactions and with the same root have the
same transaction digests. -/
theorem eq_of_merkleRoot_eq {h : MerkleHashes Tx Digest Checksum} (hfree : h.CollisionFree)
    {txs txs' : Transactions Tx} (hne : txs.all ≠ []) (hne' : txs'.all ≠ [])
    (hsame : calculateMerkleRoot h txs = calculateMerkleRoot h txs') :
    txs.all.map h.merkleDigest = txs'.all.map h.merkleDigest := by
  rw [calculateMerkleRoot_eq, calculateMerkleRoot_eq, Option.some.injEq] at hsame
  have hmap : txs.all.map h.merkleDigest ≠ [] := by simpa using hne
  have hmap' : txs'.all.map h.merkleDigest ≠ [] := by simpa using hne'
  refine HashTree.eq_of_reduce_eq hfree.pairs hmap hmap' ?_ ?_
  · intro a ha b c
    rw [← List.map_append, List.mem_map] at ha
    obtain ⟨tx, -, rfl⟩ := ha
    exact hfree.leaves tx b c
  · obtain ⟨t, -, ht⟩ := HashTree.reduce_eq_digest h.hashPair hmap
    obtain ⟨t', -, ht'⟩ := HashTree.reduce_eq_digest h.hashPair hmap'
    unfold merkleRoot at hsame
    rw [ht, ht'] at hsame ⊢
    exact congrArg some (hfree.checksums _ _ hsame)

/-- **The Merkle root commits to the transactions**: the loops compute the
recursive definition, and without collisions only one list of digests has a
root. -/
theorem merkle_root_commits (h : MerkleHashes Tx Digest Checksum) :
    (∀ txs : Transactions Tx, calculateMerkleRoot h txs = some (merkleRoot h txs)) ∧
    (h.CollisionFree → ∀ txs txs' : Transactions Tx, txs.all ≠ [] → txs'.all ≠ [] →
      calculateMerkleRoot h txs = calculateMerkleRoot h txs' →
        txs.all.map h.merkleDigest = txs'.all.map h.merkleDigest) := by
  refine ⟨calculateMerkleRoot_eq h, ?_⟩
  intro hfree txs txs' hne hne' hsame
  exact eq_of_merkleRoot_eq hfree hne hne' hsame

/-! ### Transactions with the same digests -/

/-- Digests that keep what was hashed. -/
inductive FreeDigest where
  | transaction (n : Nat)
  | pair (left right : FreeDigest)
deriving DecidableEq

/-- Transactions have the same digest if they end in the same digit. -/
def freeHashes : MerkleHashes Nat FreeDigest (Option FreeDigest) where
  merkleDigest tx := .transaction (tx % 10)
  hashPair := .pair
  hashChecksum := some
  noChecksum := none

theorem freeHashes_collisionFree : freeHashes.CollisionFree where
  pairs _ _ _ _ h := FreeDigest.pair.inj h
  checksums _ _ h := Option.some.inj h
  leaves _ _ _ h := FreeDigest.noConfusion h

theorem merkle_root_commits_three :
    calculateMerkleRoot freeHashes ⟨[1, 2, 3], by decide⟩ = some (some
      (.pair (.pair (.transaction 1) (.transaction 2)) (.transaction 3))) ∧
    ([1, 2, 3] : List Nat).map freeHashes.merkleDigest =
      ([11, 2, 23] : List Nat).map freeHashes.merkleDigest :=
  ⟨by decide, (merkle_root_commits freeHashes).2 freeHashes_collisionFree ⟨[1, 2, 3], by decide⟩
    ⟨[11, 2, 23], by decide⟩ (by decide) (by decide) (by decide)⟩

/-! ## The check of `_apply_block` -/

/-- The Merkle check, with the roots that are listed for some blocks. -/
def checkMerkleRoot [DecidableEq Checksum] (h : MerkleHashes Tx Digest Checksum)
    (sharedDbMerkle : Nat → Option Checksum) (blockNum : Nat) (transactionMerkleRoot : Checksum)
    (txs : Transactions Tx) : Except String Unit :=
  match calculateMerkleRoot h txs with
  | none => .error "calculate_merkle_root"
  | some merkleRoot =>
      if transactionMerkleRoot = merkleRoot ∨ sharedDbMerkle blockNum = some merkleRoot then .ok ()
      else .error "Merkle check failed"

/-- Transactions that pass for one root, at a block that is not listed, have the
same digests. -/
theorem checkMerkleRoot_commits [DecidableEq Checksum] {h : MerkleHashes Tx Digest Checksum}
    (hfree : h.CollisionFree) {sharedDbMerkle : Nat → Option Checksum} {blockNum : Nat}
    {root : Checksum} {txs txs' : Transactions Tx} (hlisted : sharedDbMerkle blockNum = none)
    (hne : txs.all ≠ []) (hne' : txs'.all ≠ [])
    (hpass : checkMerkleRoot h sharedDbMerkle blockNum root txs = .ok ())
    (hpass' : checkMerkleRoot h sharedDbMerkle blockNum root txs' = .ok ()) :
    txs.all.map h.merkleDigest = txs'.all.map h.merkleDigest := by
  have hroot : ∀ txs : Transactions Tx,
      checkMerkleRoot h sharedDbMerkle blockNum root txs = .ok () →
        calculateMerkleRoot h txs = some root := by
    intro txs hpass
    unfold checkMerkleRoot at hpass
    rw [calculateMerkleRoot_eq] at hpass ⊢
    simp only [hlisted, reduceCtorEq, or_false] at hpass
    by_cases hsame : root = merkleRoot h txs
    · rw [hsame]
    · simp [hsame] at hpass
  exact eq_of_merkleRoot_eq hfree hne hne' ((hroot txs hpass).trans (hroot txs' hpass').symm)

end Gamebank.Protocol
