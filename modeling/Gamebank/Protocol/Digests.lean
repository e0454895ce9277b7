import Gamebank.Lib.ByteTree
import Gamebank.Protocol.Merkle
import Gamebank.Protocol.PackedBlocks

/-!
# What digests commit to

The digests of `transaction.cpp` and `block.cpp` are hashes of packed values.
The id of a block is a hash of its signed header, which holds the Merkle root
of its transactions. The hash functions are parameters.
-/

namespace Gamebank.Protocol.Packed

open Gamebank.Lib Gamebank.Lib.Ty

/-- The hash functions of `fc/crypto`. -/
structure HashFunctions where
  sha256 : List UInt8 → Vector UInt8 32
  sha224 : List UInt8 → Vector UInt8 28
  ripemd160 : List UInt8 → Vector UInt8 20

variable {s : Layout}

/-! ## Transactions -/

/-- What `sig_digest` hashes. -/
def sigDigestBytes (chainId : Vector UInt8 32) (tx : (transaction s).Val) :
    Except String (List UInt8) := do
  let bytes ← (transaction s).pack raw tx
  return chainId.toList ++ bytes

/-- What is hashed and signed by the `sign` that does not add the signature. -/
def signConstBytes (chainId : Vector UInt8 32) (tx : (signedTransaction s).Val) :
    Except String (List UInt8) := do
  let bytes ← (signedTransaction s).pack raw tx
  return chainId.toList ++ bytes

/-- The transaction that is signed, and its signatures. -/
def unsigned (tx : (signedTransaction s).Val) : (transaction s).Val :=
  (split (transactionFields s) [.vector s.signature signatureType] tx).1

theorem Valid.unsigned {tx : (signedTransaction s).Val} (h : Valid (signedTransaction s) tx) :
    Valid (transaction s) (unsigned tx) :=
  ⟨(bounded_append raw h.bounded).1, (faithful_append h.faithful).1⟩

theorem pack_signedTransaction (tx : (signedTransaction s).Val) :
    (signedTransaction s).pack raw tx = (do
      let front ← (transaction s).pack raw (unsigned tx)
      let back ← (record [.vector s.signature signatureType]).pack raw
        (split (transactionFields s) [.vector s.signature signatureType] tx).2
      return front ++ back) :=
  pack_append raw (transactionFields s) [.vector s.signature signatureType] tx

/-- There are signatures, or the count that says there are none. -/
theorem signatures_ne_nil (l : (record [.vector s.signature signatureType] : Ty 2).Val) :
    Returns ((record [.vector s.signature signatureType]).pack raw l) fun bytes => bytes ≠ [] := by
  intro bytes h
  obtain ⟨front, hfront, h⟩ := bind_eq_ok.mp h
  obtain ⟨back, -, h⟩ := bind_eq_ok.mp h
  obtain ⟨parts, -, hcounted⟩ := bind_eq_ok.mp hfront
  rw [← pure_eq_ok.mp h, ← pure_eq_ok.mp hcounted]
  intro hnil
  obtain ⟨hcount, -⟩ := List.append_eq_nil_iff.mp (List.append_eq_nil_iff.mp hnil).1
  have hlength := congrArg List.length hcount
  have hpos := length_packUnsigned_mono (Nat.zero_le (l.1.length % 4294967296))
  rw [length_packUnsigned_of_lt (by decide)] at hpos
  rw [List.length_nil] at hlength
  have hlength : (packUnsigned (l.1.length % 4294967296)).length = 0 := hlength
  omega

/-- **Signing without adding the signature** hashes bytes that no valid
transaction has for its `sig_digest`, on any chain. -/
theorem signConst_never_verifies (chainId chainId' : Vector UInt8 32)
    {tx : (signedTransaction s).Val} {tx' : (transaction s).Val}
    (h : Valid (signedTransaction s) tx) (h' : Valid (transaction s) tx') :
    ∃ signed hashed, signConstBytes chainId tx = .ok signed ∧
      sigDigestBytes chainId' tx' = .ok hashed ∧ signed ≠ hashed := by
  obtain ⟨bytes, hbytes, -⟩ := h.completes
  obtain ⟨bytes', hbytes', -⟩ := h'.completes
  refine ⟨chainId.toList ++ bytes, chainId'.toList ++ bytes', ?_, ?_, ?_⟩
  · rw [signConstBytes, hbytes]
    rfl
  · rw [sigDigestBytes, hbytes']
    rfl
  · intro hsame
    obtain ⟨-, hsame⟩ := List.append_inj hsame (by simp)
    rw [pack_signedTransaction] at hbytes
    obtain ⟨front, hfront, hbytes⟩ := bind_eq_ok.mp hbytes
    obtain ⟨back, hback, hbytes⟩ := bind_eq_ok.mp hbytes
    rw [← pure_eq_ok.mp hbytes, ← List.append_nil bytes'] at hsame
    exact signatures_ne_nil _ back hback (h.unsigned.unique h' hfront hbytes' hsame).2

theorem signConst_never_verifies_vote :
    ∃ signed hashed, signConstBytes (Vector.replicate 32 0) someTransaction = .ok signed ∧
      sigDigestBytes (Vector.replicate 32 0) (unsigned someTransaction) = .ok hashed ∧
      signed ≠ hashed :=
  signConst_never_verifies _ _ valid_someTransaction valid_someTransaction.unsigned

/-- **A signature is for one transaction on one chain**: no other has the same
bytes under its `sig_digest`, nor under its id. -/
theorem sigDigest_commits {chainId chainId' : Vector UInt8 32} {tx tx' : (transaction s).Val}
    (h : Valid (transaction s) tx) (h' : Valid (transaction s) tx') :
    (sigDigestBytes chainId tx = sigDigestBytes chainId' tx' → chainId = chainId' ∧ tx = tx') ∧
      ((transaction s).pack raw tx = (transaction s).pack raw tx' → tx = tx') := by
  refine ⟨fun hsame => ?_, h.injective h'⟩
  obtain ⟨bytes, hbytes, -⟩ := h.completes
  obtain ⟨bytes', hbytes', -⟩ := h'.completes
  rw [sigDigestBytes, sigDigestBytes, hbytes, hbytes'] at hsame
  obtain ⟨hchain, hsame⟩ := List.append_inj (Except.ok.inj hsame) (by simp)
  exact ⟨Vector.toList_inj.mp hchain, h.injective h' (by rw [hbytes, hbytes', hsame])⟩

/-- A vote that was signed for one chain is not signed for another. -/
theorem sigDigest_commits_vote :
    sigDigestBytes (Vector.replicate 32 0) (unsigned someTransaction) ≠
      sigDigestBytes (Vector.replicate 32 1) (unsigned someTransaction) := by
  intro hsame
  have hchain := ((sigDigest_commits valid_someTransaction.unsigned
    valid_someTransaction.unsigned).1 hsame).1
  exact absurd hchain (by decide)

/-! ## Blocks -/

/-- The header of a block, which is packed first. -/
def header (b : (signedBlock s).Val) : (signedBlockHeader s).Val :=
  (split (blockHeaderFields s ++ [signatureType])
    [.vector s.signedTransaction (signedTransaction s)] b).1

def transactions (b : (signedBlock s).Val) : List (signedTransaction s).Val :=
  (split (blockHeaderFields s ++ [signatureType])
    [.vector s.signedTransaction (signedTransaction s)] b).2.1

/-- `transaction_merkle_root`. -/
def transactionMerkleRoot (b : (signedBlock s).Val) : Vector UInt8 20 := b.2.2.2.1

theorem Valid.header {b : (signedBlock s).Val} (h : Valid (signedBlock s) b) :
    Valid (signedBlockHeader s) (header b) :=
  ⟨(bounded_append raw h.bounded).1, (faithful_append h.faithful).1⟩

theorem Valid.transactions {b : (signedBlock s).Val} (h : Valid (signedBlock s) b) :
    ∀ tx ∈ transactions b, Valid (signedTransaction s) tx := by
  intro tx htx
  exact ⟨(bounded_append raw h.bounded).2.1.each tx htx, (faithful_append h.faithful).2.1 tx htx⟩

/-- `block_header::num_from_id`: the number is in the first four bytes. -/
def numFromId (id : List UInt8) : Nat := decodeBE (id.take 4)

/-- The bytes of a block that are hashed by themselves: its signed header, and
each of its transactions. -/
structure BlockBytes where
  header : List UInt8
  transactions : List (List UInt8)
deriving DecidableEq

def blockBytes (b : (signedBlock s).Val) : Except String BlockBytes := do
  let header ← (signedBlockHeader s).pack raw (header b)
  let transactions ← (transactions b).mapM ((signedTransaction s).pack raw)
  return ⟨header, transactions⟩

namespace HashFunctions

variable (H : HashFunctions)

/-- What `calculate_merkle_root` hashes with. -/
def merkle : MerkleHashes (List UInt8) (Vector UInt8 32) (Vector UInt8 20) where
  merkleDigest := H.sha256
  hashPair a b := H.sha256 (a.toList ++ b.toList)
  hashChecksum d := H.ripemd160 d.toList
  noChecksum := Vector.replicate 20 0

/-- The part of the `sha224` that an id keeps. -/
def idPart (bytes : List UInt8) : List UInt8 := ((H.sha224 bytes).toList.drop 4).take 16

/-- `signed_block_header::id`: four bytes are the number of the block. -/
def blockId (previous : Vector UInt8 20) (bytes : List UInt8) : List UInt8 :=
  encodeBE 4 ((numFromId previous.toList + 1) % 4294967296) ++ H.idPart bytes

/-- The digest that is hashed once more; there is none without transactions. -/
def rootDigest (x : BlockBytes) : Option (Vector UInt8 32) :=
  reduce H.merkle.hashPair (x.transactions.map H.sha256)

/-- What is hashed in the Merkle tree. -/
def treeStrings (x : BlockBytes) : List (List UInt8) :=
  ((reduce HashTree.node (x.transactions.map .leaf)).map (HashTree.hashed H.sha256)).getD []

/-- Nothing that is hashed for these blocks collides. -/
structure NoCollision (x x' : BlockBytes) : Prop where
  ids : H.idPart x.header = H.idPart x'.header → x.header = x'.header
  digests : HashTree.Apart H.sha256 (H.treeStrings x ++ H.treeStrings x')
  roots : ∀ d ∈ H.rootDigest x, ∀ d' ∈ H.rootDigest x',
    H.ripemd160 d.toList = H.ripemd160 d'.toList → d = d'
  /-- No root is that of an empty block. -/
  nonempty : ∀ d, H.rootDigest x = some d ∨ H.rootDigest x' = some d →
    H.ripemd160 d.toList ≠ Vector.replicate 20 0

/-- The header holds the root of the transactions, as `_apply_block` checks. -/
structure MerkleChecked (b : (signedBlock s).Val) (x : BlockBytes) : Prop where
  packed : blockBytes b = .ok x
  counted : x.transactions.length < 4294967296
  root : calculateMerkleRoot H.merkle ⟨x.transactions, counted⟩ = some (transactionMerkleRoot b)

variable {H} {b b' : (signedBlock s).Val} {x x' : BlockBytes}

/-- The digest of the tree over the transactions. -/
theorem rootDigest_eq (hne : x.transactions ≠ []) :
    ∃ t : HashTree (List UInt8), t.frontier = x.transactions ∧
      H.treeStrings x = HashTree.hashed H.sha256 t ∧
      H.rootDigest x = some (H.sha256 (HashTree.preimage H.sha256 t)) := by
  have hjoin : ∀ a b, H.merkle.hashPair a b = H.sha256 (a.toList ++ b.toList) := fun _ _ => rfl
  obtain ⟨t, ht, hleaves, hroot⟩ := HashTree.reduce_eq_hash H.sha256 hjoin hne
  refine ⟨t, hleaves, ?_, hroot⟩
  rw [treeStrings, ht]
  rfl

theorem rootDigest_eq_none : H.rootDigest x = none ↔ x.transactions = [] := by
  by_cases hnil : x.transactions = []
  · rw [rootDigest, hnil, List.map_nil, reduce_nil]
    simp
  · obtain ⟨t, -, -, hroot⟩ := rootDigest_eq (H := H) hnil
    rw [hroot]
    simp [hnil]

theorem MerkleChecked.root_eq (h : H.MerkleChecked b x) :
    transactionMerkleRoot b =
      (H.rootDigest x).elim (Vector.replicate 20 0) fun d => H.ripemd160 d.toList := by
  have hroot := h.root
  rw [calculateMerkleRoot_eq, Option.some.injEq] at hroot
  rw [← hroot]
  unfold merkleRoot rootDigest
  cases hreduce : reduce H.merkle.hashPair (x.transactions.map H.sha256) with
  | none =>
      have hreduce : reduce H.merkle.hashPair (x.transactions.map H.merkle.merkleDigest) = none :=
        hreduce
      rw [hreduce]
      rfl
  | some d =>
      have hreduce : reduce H.merkle.hashPair (x.transactions.map H.merkle.merkleDigest) = some d :=
        hreduce
      rw [hreduce]
      rfl

/-- Blocks with the same root have the same transactions. -/
theorem transactions_eq_of_root_eq (h : H.MerkleChecked b x) (h' : H.MerkleChecked b' x')
    (hno : H.NoCollision x x')
    (hlong : ∀ bytes ∈ x.transactions ++ x'.transactions, bytes.length ≠ 64)
    (hroot : transactionMerkleRoot b = transactionMerkleRoot b') :
    x.transactions = x'.transactions := by
  rw [h.root_eq, h'.root_eq] at hroot
  by_cases hnil : x.transactions = []
  · by_cases hnil' : x'.transactions = []
    · rw [hnil, hnil']
    · obtain ⟨t', -, -, hd'⟩ := rootDigest_eq (H := H) hnil'
      rw [rootDigest_eq_none.mpr hnil, hd'] at hroot
      exact absurd hroot.symm (hno.nonempty _ (Or.inr hd'))
  · obtain ⟨t, hleaves, hstrings, hd⟩ := rootDigest_eq (H := H) hnil
    by_cases hnil' : x'.transactions = []
    · rw [rootDigest_eq_none.mpr hnil', hd] at hroot
      exact absurd hroot (hno.nonempty _ (Or.inl hd))
    · obtain ⟨t', hleaves', hstrings', hd'⟩ := rootDigest_eq (H := H) hnil'
      rw [hd, hd'] at hroot
      have hsame := hno.roots _ hd _ hd' hroot
      have happart := hno.digests
      rw [hstrings, hstrings'] at happart
      rw [← hleaves, ← hleaves'] at hlong ⊢
      exact HashTree.frontier_eq_of_hash_eq H.sha256 happart hlong hsame

/-- **The id of a block commits to the whole block**: if no hash collides and
no transaction packs to 64 bytes, valid blocks whose Merkle roots were checked
are the same if their ids are. -/
theorem blockId_commits (hvalid : Valid (signedBlock s) b) (hvalid' : Valid (signedBlock s) b')
    (h : H.MerkleChecked b x) (h' : H.MerkleChecked b' x') (hno : H.NoCollision x x')
    (hlong : ∀ bytes ∈ x.transactions ++ x'.transactions, bytes.length ≠ 64)
    (hid : H.blockId b.1 x.header = H.blockId b'.1 x'.header) : b = b' := by
  obtain ⟨front, hfront, hpacked⟩ := bind_eq_ok.mp h.packed
  obtain ⟨parts, hparts, hpacked⟩ := bind_eq_ok.mp hpacked
  obtain ⟨front', hfront', hpacked'⟩ := bind_eq_ok.mp h'.packed
  obtain ⟨parts', hparts', hpacked'⟩ := bind_eq_ok.mp hpacked'
  obtain rfl := pure_eq_ok.mp hpacked
  obtain rfl := pure_eq_ok.mp hpacked'
  have hbytes : front = front' := hno.ids (List.append_inj hid (by simp)).2
  have hheader : header b = header b' := hvalid.header.injective hvalid'.header
    (by rw [hfront, hfront', hbytes])
  have hroot : transactionMerkleRoot b = transactionMerkleRoot b' :=
    congrArg (fun header => header.2.2.2.1) hheader
  have hsame : parts = parts' := transactions_eq_of_root_eq h h' hno hlong hroot
  have htransactions : transactions b = transactions b' :=
    Valid.mapM_injective hvalid.transactions hvalid'.transactions hparts (hsame ▸ hparts')
  exact split_injective (Prod.ext hheader (Prod.ext htransactions rfl))

/-! ### Blocks with three votes -/

/-- The bytes as the digits of a number, cut to `w` bytes. -/
def numberHash (w : Nat) (bytes : List UInt8) : Vector UInt8 w :=
  ⟨(encodeLE w (bytes.foldl (fun n b => (257 * n + b.toNat + 1) % 256 ^ w) 0)).toArray, by simp⟩

def numberHashes : HashFunctions := ⟨numberHash 32, numberHash 28, numberHash 20⟩

/-- What the vote packs to. -/
def voteBytes (n : UInt8) : List UInt8 :=
  [n, 0, 0, 0, 0, 0, 232, 3, 0, 0, 1, 0, 5, 97, 108, 105, 99, 101, 3, 98, 111, 98, 1, 112, 16, 39,
    0, 1] ++ List.replicate 65 1

/-- The root of the block with these three. -/
def votesRoot (a b c : UInt8) : Vector UInt8 20 :=
  numberHashes.ripemd160 (numberHashes.merkle.hashPair (numberHashes.merkle.hashPair
    (numberHash 32 (voteBytes a)) (numberHash 32 (voteBytes b)))
    (numberHash 32 (voteBytes c))).toList

def votesBlock (a b c : UInt8) : (signedBlock someLayout).Val :=
  (someBlock.1, someBlock.2.1, someBlock.2.2.1, votesRoot a b c, someBlock.2.2.2.2.1,
    someBlock.2.2.2.2.2.1, [voteAt a, voteAt b, voteAt c], ())

/-- Its bytes. -/
def votesBytes (a b c : UInt8) : BlockBytes where
  header := List.replicate 20 0 ++ ([3, 0, 0, 0, 5, 97, 108, 105, 99, 101] ++
    ((votesRoot a b c).toList ++ List.replicate 66 0))
  transactions := [voteBytes a, voteBytes b, voteBytes c]

theorem reduce_three {α : Type} (join : α → α → α) (a b c : α) :
    reduce join [a, b, c] = some (join (join a b) c) := by
  calc reduce join [a, b, c] = reduce join [join a b, c] := reduce_of_lt (by simp)
    _ = reduce join [join (join a b) c] := reduce_of_lt (by simp)
    _ = some (join (join a b) c) := reduce_singleton _

theorem blockBytes_votes :
    blockBytes (votesBlock 7 8 9) = .ok (votesBytes 7 8 9) ∧
      blockBytes (votesBlock 8 7 9) = .ok (votesBytes 8 7 9) := by
  decide +kernel

/-- The root is that of the transactions. -/
theorem merkleChecked_votes {a b c : UInt8}
    (h : blockBytes (votesBlock a b c) = .ok (votesBytes a b c)) :
    numberHashes.MerkleChecked (votesBlock a b c) (votesBytes a b c) where
  packed := h
  counted := (by decide : 3 < 4294967296)
  root := by
    rw [calculateMerkleRoot_eq]
    simp only [merkleRoot, votesBytes, List.map_cons, List.map_nil, reduce_three]
    rfl

/-- What is hashed for the three transactions. -/
def votesStrings (a b c : UInt8) : List (List UInt8) :=
  let pairHash := numberHashes.merkle.hashPair (numberHash 32 (voteBytes a))
    (numberHash 32 (voteBytes b))
  [pairHash.toList ++ (numberHash 32 (voteBytes c)).toList,
    (numberHash 32 (voteBytes a)).toList ++ (numberHash 32 (voteBytes b)).toList,
    voteBytes a, voteBytes b, voteBytes c]

theorem treeStrings_votes (a b c : UInt8) :
    numberHashes.treeStrings (votesBytes a b c) = votesStrings a b c := by
  rw [treeStrings, votesBytes]
  simp only [List.map_cons, List.map_nil, reduce_three]
  rfl

theorem rootDigest_votes (a b c : UInt8) :
    numberHashes.rootDigest (votesBytes a b c) =
      some (numberHashes.merkle.hashPair (numberHashes.merkle.hashPair
        (numberHash 32 (voteBytes a)) (numberHash 32 (voteBytes b)))
        (numberHash 32 (voteBytes c))) := by
  rw [rootDigest, votesBytes]
  simp only [List.map_cons, List.map_nil, reduce_three]
  rfl

theorem noCollision_votes : numberHashes.NoCollision (votesBytes 7 8 9) (votesBytes 8 7 9) where
  ids := by decide +kernel
  digests := by
    rw [treeStrings_votes, treeStrings_votes]
    unfold HashTree.Apart
    decide +kernel
  roots := by
    rw [rootDigest_votes, rootDigest_votes]
    decide +kernel
  nonempty := by
    rw [rootDigest_votes, rootDigest_votes]
    rintro d (hd | hd)
    · rw [← Option.some.inj hd]
      decide +kernel
    · rw [← Option.some.inj hd]
      decide +kernel

theorem valid_votesBlock (a b c : UInt8) : Valid (signedBlock someLayout) (votesBlock a b c) where
  bounded := by
    have hvotes : Fits raw ((signedTransaction someLayout).Bounded raw)
        someLayout.signedTransaction [voteAt a, voteAt b, voteAt c] := by
      refine ⟨?_, (by decide : 3 < 4294967296), (by decide : 3 * 88 < maxArrayAllocSize)⟩
      simp only [List.forall_mem_cons, List.not_mem_nil, false_implies, implies_true, and_true]
      exact ⟨(valid_voteAt a).bounded, (valid_voteAt b).bounded, (valid_voteAt c).bounded⟩
    exact ⟨trivial, trivial, (by decide : 5 < maxArrayAllocSize), trivial,
      ⟨fits_nil _ _, List.Pairwise.nil⟩, trivial, hvotes, trivial⟩
  faithful := by
    have hvotes : ∀ tx ∈ [voteAt a, voteAt b, voteAt c],
        (signedTransaction someLayout).Faithful tx := by
      simp only [List.forall_mem_cons, List.not_mem_nil, false_implies, implies_true, and_true]
      exact ⟨(valid_voteAt a).faithful, (valid_voteAt b).faithful, (valid_voteAt c).faithful⟩
    exact ⟨trivial, trivial, trivial, trivial, fun e he => absurd he List.not_mem_nil, trivial,
      hvotes, trivial⟩

/-- Nor does anything collide that is hashed for one of the blocks. -/
theorem NoCollision.left (h : H.NoCollision x x') : H.NoCollision x x where
  ids _ := rfl
  digests := h.digests.mono (by simp)
  roots d hd d' hd' _ := by
    rw [hd] at hd'
    exact Option.some.inj hd'
  nonempty d hd := h.nonempty d (.inl ((or_self _).mp hd))

/-- Two blocks with the same votes in another order have different ids; the same
id is that of the same block. -/
theorem blockId_commits_votes :
    (numberHashes.NoCollision (votesBytes 7 8 9) (votesBytes 7 8 9) ∧
      votesBlock 7 8 9 = votesBlock 7 8 9) ∧
    numberHashes.MerkleChecked (votesBlock 7 8 9) (votesBytes 7 8 9) ∧
      numberHashes.MerkleChecked (votesBlock 8 7 9) (votesBytes 8 7 9) ∧
      numberHashes.NoCollision (votesBytes 7 8 9) (votesBytes 8 7 9) ∧
      numberHashes.blockId (votesBlock 7 8 9).1 (votesBytes 7 8 9).header ≠
        numberHashes.blockId (votesBlock 8 7 9).1 (votesBytes 8 7 9).header := by
  have hchecked := merkleChecked_votes blockBytes_votes.1
  have hchecked' := merkleChecked_votes blockBytes_votes.2
  have hlong : ∀ bytes ∈ (votesBytes 7 8 9).transactions ++ (votesBytes 8 7 9).transactions,
      bytes.length ≠ 64 := by decide
  have hlong' : ∀ bytes ∈ (votesBytes 7 8 9).transactions ++ (votesBytes 7 8 9).transactions,
      bytes.length ≠ 64 := by decide
  refine ⟨⟨noCollision_votes.left, blockId_commits (valid_votesBlock 7 8 9)
    (valid_votesBlock 7 8 9) hchecked hchecked noCollision_votes.left hlong' rfl⟩, hchecked,
    hchecked', noCollision_votes, fun hid => ?_⟩
  have hsame : votesBlock 7 8 9 = votesBlock 8 7 9 := blockId_commits (valid_votesBlock 7 8 9)
    (valid_votesBlock 8 7 9) hchecked hchecked' noCollision_votes hlong hid
  have hroots : votesRoot 7 8 9 = votesRoot 8 7 9 := congrArg (fun b => b.2.2.2.1) hsame
  exact absurd hroots (by decide +kernel)

end HashFunctions

end Gamebank.Protocol.Packed
