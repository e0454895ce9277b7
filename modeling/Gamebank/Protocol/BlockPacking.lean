import Gamebank.Lib.ByteStream
import Gamebank.Protocol.FixedString

/-!
# Blocks on the wire

`fc::raw::pack` of a signed block, as `FC_REFLECT` orders its fields. Hashes
and signatures have a fixed number of bytes; the witness is a string, the
extensions and the transactions come with their number in front.
-/

namespace Gamebank.Protocol

open Gamebank.Lib

universe v

/-- `GAMEBANK_BLOCKCHAIN_VERSION`, `version( 0, 0, 1 )`. -/
def blockchainVersion : UInt32 := 1

/-- The part of a version that a hardfork version has. -/
def hardforkPart (v : UInt32) : UInt32 := v &&& 0xFFFF0000

/-- `block_header_extensions`. -/
inductive BlockHeaderExtension where
  | void
  | version (v : UInt32)
  | hardforkVersionVote (hfVersion hfTime : UInt32)
deriving DecidableEq

namespace BlockHeaderExtension

/-- The tag of the `static_variant`, by which it is compared. -/
def which : BlockHeaderExtension → Nat
  | void => 0
  | version _ => 1
  | hardforkVersionVote _ _ => 2

/-- What follows the tag. -/
def payload : BlockHeaderExtension → List UInt8
  | void => []
  | version v => encodeLE 4 v.toNat
  | hardforkVersionVote hfVersion hfTime => encodeLE 4 hfVersion.toNat ++ encodeLE 4 hfTime.toNat

def pack (e : BlockHeaderExtension) : List UInt8 := packUnsigned e.which ++ e.payload

/-- `insert` of a `flat_set`: what is there already stays. -/
def insert (e : BlockHeaderExtension) : List BlockHeaderExtension → List BlockHeaderExtension
  | [] => [e]
  | x :: rest =>
      if e.which < x.which then e :: x :: rest
      else if x.which < e.which then x :: insert e rest
      else x :: rest

end BlockHeaderExtension

/-- `signed_block_header`. -/
structure SignedBlockHeader where
  previous : Vector UInt8 20
  timestamp : UInt32
  witness : List UInt8
  transactionMerkleRoot : Vector UInt8 20
  extensions : List BlockHeaderExtension
  witnessSignature : Vector UInt8 65

namespace SignedBlockHeader

/-- The default constructor. -/
def empty : SignedBlockHeader where
  previous := Vector.replicate 20 0
  timestamp := 0
  witness := []
  transactionMerkleRoot := Vector.replicate 20 0
  extensions := []
  witnessSignature := Vector.replicate 65 0

def pack (h : SignedBlockHeader) : List UInt8 :=
  h.previous.toList ++ encodeLE 4 h.timestamp.toNat ++ packString h.witness ++
    h.transactionMerkleRoot.toList ++
    (packUnsigned (h.extensions.length % 4294967296) ++
      (h.extensions.map BlockHeaderExtension.pack).flatten) ++
    h.witnessSignature.toList

end SignedBlockHeader

/-- The transactions of a block. -/
def packTransactions {Tx : Type v} (packTx : Tx → List UInt8) (txs : List Tx) : List UInt8 :=
  packUnsigned (txs.length % 4294967296) ++ (txs.map packTx).flatten

/-! ## Sizes -/

theorem length_packUnsigned_of_lt {n : Nat} (h : n < 128) : (packUnsigned n).length = 1 := by
  rw [packUnsigned, if_pos (by omega)]
  rfl

/-- Larger numbers take no fewer bytes. -/
theorem length_packUnsigned_mono {m n : Nat} (h : m ≤ n) :
    (packUnsigned m).length ≤ (packUnsigned n).length := by
  induction n using packUnsigned.induct generalizing m with
  | case1 n hn =>
      have hm : m / 128 = 0 := by omega
      rw [packUnsigned, if_pos hm, packUnsigned, if_pos hn]
      rfl
  | case2 n hn ih =>
      conv_rhs => rw [packUnsigned, if_neg hn, List.length_cons]
      by_cases hm : m / 128 = 0
      · rw [packUnsigned, if_pos hm]
        simp
      · rw [packUnsigned, if_neg hm, List.length_cons]
        have := ih (Nat.div_le_div_right h)
        omega

@[simp] theorem length_packString (text : List UInt8) :
    (packString text).length = (packUnsigned (text.length % 4294967296)).length + text.length := by
  rw [packString, List.length_append]

/-- The bytes of the extensions. -/
def extensionsSize (es : List BlockHeaderExtension) : Nat :=
  (es.map BlockHeaderExtension.pack).flatten.length

/-- A header with a name and few extensions is an empty one with these added. -/
theorem SignedBlockHeader.length_pack (h : SignedBlockHeader) (hname : h.witness.length < 128)
    (hfew : h.extensions.length < 128) :
    h.pack.length = 111 + h.witness.length + extensionsSize h.extensions := by
  have hname' : h.witness.length % 4294967296 < 128 := by omega
  have hfew' : h.extensions.length % 4294967296 < 128 := by omega
  unfold SignedBlockHeader.pack extensionsSize
  simp only [List.length_append, Vector.length_toList, length_encodeLE, length_packString,
    length_packUnsigned_of_lt hname', length_packUnsigned_of_lt hfew']
  omega

theorem SignedBlockHeader.length_pack_empty : SignedBlockHeader.empty.pack.length = 111 := by
  rw [SignedBlockHeader.length_pack] <;> simp [SignedBlockHeader.empty, extensionsSize]

@[simp] theorem length_packTransactions {Tx : Type v} (packTx : Tx → List UInt8) (txs : List Tx) :
    (packTransactions packTx txs).length =
      (packUnsigned (txs.length % 4294967296)).length + (txs.map packTx).flatten.length := by
  rw [packTransactions, List.length_append]

end Gamebank.Protocol
