import Gamebank.Protocol.OperationFormat

/-!
# Blocks come back

What is packed is read again, by every node and whatever follows it, if no
account name in it has bytes behind a zero and all asset symbols are core
symbols. What is received meets the other limits by itself; it may be written
in more bytes than it packs to, or in fewer.
-/

namespace Gamebank.Protocol.Packed

open Gamebank.Lib Gamebank.Lib.Ty

/-- What a reader guarantees, and what it does not: that names and asset
symbols are the same when they are packed. -/
structure Valid (t : Ty 2) (a : t.Val) : Prop where
  bounded : t.Bounded raw a
  faithful : t.Faithful a

variable {t : Ty 2} {a a' : t.Val}

theorem Valid.completes (h : Valid t a) :
    Completes (t.pack raw a) fun bytes => Reads (t.unpack raw) bytes a :=
  reads_pack raw t a ⟨h.bounded, h.faithful⟩

/-- No two values have the same bytes, nor do the bytes of one begin those of
the other. -/
theorem Valid.unique (h : Valid t a) (h' : Valid t a') {bytes bytes' rest rest' : List UInt8}
    (hpack : t.pack raw a = .ok bytes) (hpack' : t.pack raw a' = .ok bytes')
    (hsame : bytes ++ rest = bytes' ++ rest') : a = a' ∧ rest = rest' := by
  obtain ⟨_, hbytes, hread⟩ := h.completes
  obtain ⟨_, hbytes', hread'⟩ := h'.completes
  rw [hpack] at hbytes
  rw [hpack'] at hbytes'
  rw [← Except.ok.inj hbytes] at hread
  rw [← Except.ok.inj hbytes'] at hread'
  exact hread.unique hread' hsame

theorem Valid.injective (h : Valid t a) (h' : Valid t a')
    (hsame : t.pack raw a = t.pack raw a') : a = a' := by
  obtain ⟨bytes, hpack, -⟩ := h.completes
  exact (h.unique h' hpack (hsame ▸ hpack) (rfl : bytes ++ [] = bytes ++ [])).1

theorem Valid.mapM_injective {l l' : List t.Val} (h : ∀ a ∈ l, Valid t a) (h' : ∀ a ∈ l', Valid t a)
    {parts : List (List UInt8)} (hparts : l.mapM (t.pack raw) = .ok parts)
    (hparts' : l'.mapM (t.pack raw) = .ok parts) : l = l' := by
  induction l generalizing l' parts with
  | nil =>
      rw [List.mapM_nil] at hparts
      rw [← pure_eq_ok.mp hparts] at hparts'
      cases l' with
      | nil => rfl
      | cons a' rest' =>
          obtain ⟨_, _, -, -, hcons⟩ := mapM_cons_eq_ok hparts'
          cases hcons
  | cons a rest ih =>
      obtain ⟨front, fronts, hfront, hfronts, rfl⟩ := mapM_cons_eq_ok hparts
      cases l' with
      | nil =>
          rw [List.mapM_nil] at hparts'
          cases pure_eq_ok.mp hparts'
      | cons a' rest' =>
          obtain ⟨front', fronts', hfront', hfronts', hcons⟩ := mapM_cons_eq_ok hparts'
          obtain ⟨rfl, rfl⟩ := List.cons.inj hcons
          have hfirst : a = a' := (h a List.mem_cons_self).injective (h' a' List.mem_cons_self)
            (hfront.trans hfront'.symm)
          have hrest : rest = rest' := ih (fun b hb => h b (List.mem_cons_of_mem a hb))
            (fun b hb => h' b (List.mem_cons_of_mem a' hb)) hfronts hfronts'
          rw [hfirst, hrest]

/-- What is known of a value that was received. -/
structure Received (t : Ty 2) (front : List UInt8) (a : t.Val) : Prop where
  /-- Other bytes behind it do not matter. -/
  reads : Reads (t.unpack raw) front a
  bounded : t.Bounded raw a
  /-- If it comes back at all, it packs to at most twice the bytes. -/
  repacked : t.Faithful a → ∃ bytes, t.pack raw a = .ok bytes ∧
    bytes.length ≤ 2 * front.length ∧ Reads (t.unpack raw) bytes a

theorem received_of_unpack {input rest : List UInt8} (h : t.unpack raw input = .ok (a, rest)) :
    ∃ front, input = front ++ rest ∧ Received t front a := by
  obtain ⟨front, hinput, hread⟩ := local_unpack raw t input a rest h
  refine ⟨front, hinput, hread, bounded_of_reads raw t hread, fun hfaithful => ?_⟩
  obtain ⟨bytes, hpack, hback⟩ := reads_pack raw t a ⟨bounded_of_reads raw t hread, hfaithful⟩
  exact ⟨bytes, hpack, pack_le raw (by decide) t front a hread bytes hpack, hback⟩

/-! ## Blocks -/

variable (s : Layout)

/-- **Blocks come back** from what they pack to, whatever is behind them, and
the bytes of no other block begin in the same way. -/
theorem signedBlock_comes_back (b : (signedBlock s).Val) (h : Valid (signedBlock s) b) :
    ∃ bytes, (signedBlock s).pack raw b = .ok bytes ∧
      (∀ rest, (signedBlock s).unpack raw (bytes ++ rest) = .ok (b, rest)) ∧
      ∀ b' bytes' rest rest', Valid (signedBlock s) b' →
        (signedBlock s).pack raw b' = .ok bytes' → bytes ++ rest = bytes' ++ rest' →
          b = b' ∧ rest = rest' := by
  obtain ⟨bytes, hpack, hread⟩ := h.completes
  refine ⟨bytes, hpack, hread, ?_⟩
  intro b' bytes' rest rest' h' hpack' hsame
  exact h.unique h' hpack hpack' hsame

/-- **A block that was received** was in the first bytes, is within all limits,
and comes back from at most twice as many bytes if its names and symbols do. -/
theorem signedBlock_received {input rest : List UInt8} {b : (signedBlock s).Val}
    (h : (signedBlock s).unpack raw input = .ok (b, rest)) :
    ∃ front, input = front ++ rest ∧ Received (signedBlock s) front b :=
  received_of_unpack h

/-! ## Headers -/

/-- An extension as its tag and its value. -/
def ofExtension : BlockHeaderExtension → blockHeaderExtensions.Val
  | .void => ⟨⟨0, by decide⟩, ()⟩
  | .version v => ⟨⟨1, by decide⟩, (v.toBitVec, ())⟩
  | .hardforkVersionVote hfVersion hfTime =>
      ⟨⟨2, by decide⟩, ((hfVersion.toBitVec, ()), (hfTime.toBitVec, ()))⟩

def ofHeader (h : SignedBlockHeader) : (signedBlockHeader s).Val :=
  (h.previous, h.timestamp.toBitVec, h.witness, h.transactionMerkleRoot,
    h.extensions.map ofExtension, h.witnessSignature, ())

theorem pack_ofExtension (e : BlockHeaderExtension) :
    blockHeaderExtensions.pack raw (ofExtension e) = .ok e.pack := by
  cases e with
  | void => rfl
  | version v => rfl
  | hardforkVersionVote hfVersion hfTime => rfl

theorem mapM_ofExtension (es : List BlockHeaderExtension) :
    (es.map ofExtension).mapM (blockHeaderExtensions.pack raw) =
      .ok (es.map BlockHeaderExtension.pack) := by
  induction es with
  | nil => rfl
  | cons e rest ih =>
      rw [List.map_cons, List.mapM_cons, pack_ofExtension, ih]
      rfl

theorem pack_pair {t u : Ty 2} {a : t.Val} {b : u.Val} {front back : List UInt8}
    (ha : t.pack raw a = .ok front) (hb : u.pack raw b = .ok back) :
    (pair t u).pack raw (a, b) = .ok (front ++ back) :=
  bind_eq_ok.mpr ⟨front, ha, bind_eq_ok.mpr ⟨back, hb, rfl⟩⟩

/-- The header whose size bounds that of a block packs to the same bytes here. -/
theorem pack_ofHeader (h : SignedBlockHeader) :
    (signedBlockHeader s).pack raw (ofHeader s h) = .ok h.pack := by
  have hextensions : (flatSet s.blockHeaderExtension blockHeaderExtensions).pack raw
      (h.extensions.map ofExtension) = .ok (packUnsigned (h.extensions.length % 4294967296) ++
        (h.extensions.map BlockHeaderExtension.pack).flatten) := by
    show packCounted raw (blockHeaderExtensions.pack raw) (h.extensions.map ofExtension) = _
    rw [packCounted, packAll, mapM_ofExtension, List.length_map]
    rfl
  have hpacked : (signedBlockHeader s).pack raw (ofHeader s h) = .ok (h.previous.toList ++
      (encodeLE 4 h.timestamp.toNat ++ (packString h.witness ++ (h.transactionMerkleRoot.toList ++
        (packUnsigned (h.extensions.length % 4294967296) ++
          (h.extensions.map BlockHeaderExtension.pack).flatten ++
            (h.witnessSignature.toList ++ [])))))) :=
    pack_pair rfl (pack_pair rfl (pack_pair rfl (pack_pair rfl (pack_pair hextensions
      (pack_pair rfl rfl)))))
  rw [hpacked, SignedBlockHeader.pack, List.append_nil]
  simp only [List.append_assoc]

/-! ### A block with a vote -/

theorem fits_nil {α : Type} (P : α → Prop) (size : Nat) : Fits raw P size [] where
  each := by simp
  counted := Nat.zero_lt_succ _
  allocated := by
    rw [List.length_nil, Nat.zero_mul]
    exact Nat.zero_lt_succ _

theorem fits_singleton {α : Type} {P : α → Prop} {size : Nat} {a : α} (h : P a)
    (hsize : size < maxArrayAllocSize) : Fits raw P size [a] where
  each := by simpa using h
  counted := (by decide : 1 < 4294967296)
  allocated := by
    rw [List.length_singleton, Nat.one_mul]
    exact hsize

/-- Sizes as a compiler may choose them. -/
def someLayout : Layout where
  accountName := 16
  publicKey := 33
  weight := 2
  string := 32
  charVector := 24
  uint32 := 4
  authority := 56
  beneficiaryRoute := 32
  futureExtension := 16
  commentOptionsExtension := 32
  blockHeaderExtension := 16
  operation := 512
  signature := 65
  signedTransaction := 88

/-- alice votes on "p" of bob. -/
def someVote : (operation someLayout).Val :=
  ⟨⟨0, by decide⟩, (FixedString.ofString [97, 108, 105, 99, 101],
    FixedString.ofString [98, 111, 98], ([112] : List UInt8), (10000#16), ())⟩

/-- A transaction with the vote, that names the block `n`. -/
def voteAt (n : UInt8) : (signedTransaction someLayout).Val :=
  (BitVec.ofNat 16 n.toNat, (0#32), (1000#32), [someVote], ([] : List futureExtensions.Val),
    [(Vector.replicate 65 (1 : UInt8))], ())

def someTransaction : (signedTransaction someLayout).Val := voteAt 7

def someBlock : (signedBlock someLayout).Val :=
  (Vector.replicate 20 (0 : UInt8), (3#32), ([97, 108, 105, 99, 101] : List UInt8),
    Vector.replicate 20 (0 : UInt8), ([] : List blockHeaderExtensions.Val),
    Vector.replicate 65 (0 : UInt8), [someTransaction], ())

theorem faithful_alice :
    FixedString.ofString (FixedString.ofString [97, 108, 105, 99, 101]).string =
      FixedString.ofString [97, 108, 105, 99, 101] := by
  decide +kernel

theorem faithful_bob :
    FixedString.ofString (FixedString.ofString [98, 111, 98]).string =
      FixedString.ofString [98, 111, 98] := by
  decide +kernel

theorem valid_voteAt (n : UInt8) : Valid (signedTransaction someLayout) (voteAt n) where
  bounded := by
    have hvote : (operation someLayout).Bounded raw someVote :=
      ⟨by decide, trivial, trivial, (by decide : 1 < maxArrayAllocSize), trivial, trivial⟩
    exact ⟨trivial, trivial, trivial, fits_singleton hvote (by decide),
      ⟨fits_nil _ _, List.Pairwise.nil⟩, fits_singleton trivial (by decide), trivial⟩
  faithful := by
    refine ⟨trivial, trivial, trivial, fun op hop => ?_, fun e he => absurd he List.not_mem_nil,
      fun g _ => trivial, trivial⟩
    rw [List.mem_singleton.mp hop]
    exact ⟨faithful_alice, faithful_bob, trivial, trivial, trivial⟩

theorem valid_someTransaction : Valid (signedTransaction someLayout) someTransaction :=
  valid_voteAt 7

theorem valid_someBlock : Valid (signedBlock someLayout) someBlock where
  bounded := ⟨trivial, trivial, (by decide : 5 < maxArrayAllocSize), trivial,
    ⟨fits_nil _ _, List.Pairwise.nil⟩, trivial,
    fits_singleton valid_someTransaction.bounded (by decide), trivial⟩
  faithful := by
    refine ⟨trivial, trivial, trivial, trivial, fun e he => absurd he List.not_mem_nil,
      trivial, fun tx htx => ?_, trivial⟩
    rw [List.mem_singleton.mp htx]
    exact valid_someTransaction.faithful

theorem signedBlock_comes_back_vote :
    ∃ bytes, (signedBlock someLayout).pack raw someBlock = .ok bytes ∧
      ∀ rest, (signedBlock someLayout).unpack raw (bytes ++ rest) = .ok (someBlock, rest) := by
  obtain ⟨bytes, hpack, hread, -⟩ := signedBlock_comes_back someLayout someBlock valid_someBlock
  exact ⟨bytes, hpack, hread⟩

theorem signedBlock_received_vote :
    ∃ bytes front, bytes = front ++ [] ∧ Received (signedBlock someLayout) front someBlock := by
  obtain ⟨bytes, -, hread⟩ := valid_someBlock.completes
  have hinput := hread []
  rw [List.append_nil] at hinput
  exact ⟨bytes, signedBlock_received someLayout hinput⟩

end Gamebank.Protocol.Packed
