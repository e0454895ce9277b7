import Gamebank.Chain.BlockLookup
import Gamebank.Lib.ByteStream
import Gamebank.Lib.OrderedIndex

/-!
# What `get_block_hash` commits to

`chain.get_block_hash` goes back from a block in strides and hashes each block
it comes to, but every hash replaces the one before: `hash_result.hash` is a
static function. So the answer is the hash of the last block alone
(`getBlockHash_eq_ok`), and a chain with another block in front of it gets the
same answer, unless there is only one block to begin with.
-/

namespace Gamebank.Chain

open Gamebank.Lib

universe w

variable {Name Tx : Type} {Rest : Type w}

/-- The hash functions: `block_header::digest`, the merkle root of the header,
and `ripemd160::hash` with `str`. -/
structure BlockHashing (Name Tx : Type) where
  digest : SignedBlock Name Tx → List UInt8
  merkleRoot : SignedBlock Name Tx → List UInt8
  ripemd160 : List UInt8 → String

namespace BlockHashing

def hashes (h : BlockHashing Name Tx) : BlockHashes Name Tx :=
  ⟨fun b => h.ripemd160 (h.digest b), fun b => h.ripemd160 (h.merkleRoot b)⟩

/-- The hash functions are injective, the timestamp of a header being a
`uint32_t`; a digest has 32 bytes and a merkle root has 20. -/
structure Injective (h : BlockHashing Name Tx) : Prop where
  ripemd160 : Function.Injective h.ripemd160
  digest : ∀ a b, h.digest a = h.digest b → a.timestamp % uint32Size = b.timestamp % uint32Size
  digestLength : ∀ b, (h.digest b).length = 32
  merkleRootLength : ∀ b, (h.merkleRoot b).length = 20

/-- Two blocks differ in the digest, or in the merkle root if neither is empty. -/
def Differ (h : BlockHashing Name Tx) (a b : SignedBlock Name Tx) : Prop :=
  if a.transactions.isEmpty ∨ b.transactions.isEmpty then h.digest a ≠ h.digest b
  else h.merkleRoot a ≠ h.merkleRoot b

instance (h : BlockHashing Name Tx) (a b : SignedBlock Name Tx) : Decidable (h.Differ a b) :=
  inferInstanceAs (Decidable (if _ ∨ _ then _ ≠ _ else _ ≠ _))

/-- The hash of one block. -/
def ofBlock (h : BlockHashing Name Tx) (b : SignedBlock Name Tx) : String :=
  if b.transactions.isEmpty then h.ripemd160 (h.digest b) else h.ripemd160 (h.merkleRoot b)

theorem Injective.ofBlock_ne {h : BlockHashing Name Tx} (hh : h.Injective)
    {a b : SignedBlock Name Tx}
    (hdiffer : h.Differ a b) : h.ofBlock a ≠ h.ofBlock b := by
  unfold Differ at hdiffer
  unfold ofBlock
  intro hsame
  cases ha : a.transactions.isEmpty with
  | true =>
      cases hb : b.transactions.isEmpty with
      | true =>
          simp only [ha, hb, if_true, true_or] at hdiffer hsame
          exact hdiffer (hh.ripemd160 hsame)
      | false =>
          -- a digest is no merkle root
          simp only [ha, hb, if_true, Bool.false_eq_true, if_false] at hsame
          have hlength := congrArg List.length (hh.ripemd160 hsame)
          rw [hh.digestLength, hh.merkleRootLength] at hlength
          omega
  | false =>
      cases hb : b.transactions.isEmpty with
      | true =>
          simp only [ha, hb, if_true, Bool.false_eq_true, if_false] at hsame
          have hlength := congrArg List.length (hh.ripemd160 hsame)
          rw [hh.digestLength, hh.merkleRootLength] at hlength
          omega
      | false =>
          simp only [ha, hb, Bool.false_eq_true, if_false, or_self] at hdiffer hsame
          exact hdiffer (hh.ripemd160 hsame)

end BlockHashing

namespace Node

variable {h : BlockHashing Name Tx} {m n : Node Name Tx Rest} {blockNum blockCount interval : Int}

/-- The arguments that `get_block_hash` accepts. -/
structure Accepts (n : Node Name Tx Rest) (blockNum blockCount interval : Int) : Prop where
  count : 0 < blockCount ∧ blockCount ≤ 100
  num : 0 < blockNum ∧ blockNum ≤ n.headBlockNum
  enough : blockCount ≤ blockNum
  interval : 1 ≤ interval ∧ interval ≤ blockCount

/-- The number of the `i`-th block that the arguments address. -/
def addressed (blockNum interval : Int) (i : Nat) : Int := blockNum - i * interval

@[simp] theorem addressed_zero (blockNum interval : Int) :
    addressed blockNum interval 0 = blockNum := by
  simp [addressed]

/-- The node has every block of its chain. -/
structure Complete (n : Node Name Tx Rest) : Prop where
  small : n.headBlockNum < uint32Size
  found : ∀ num, 1 ≤ num → num ≤ n.headBlockNum →
    ∃ b, n.fetchBlockByNumber num = some b ∧ b.blockNum = num

/-- The loop asks for blocks of the chain only, and the answer tells the chain
from any other that differs in one of them. -/
structure Commits (h : BlockHashing Name Tx) (n : Node Name Tx Rest)
    (blockNum blockCount interval : Int) : Prop where
  inChain : ∀ i < blockCount.toNat,
    1 ≤ addressed blockNum interval i ∧ addressed blockNum interval i ≤ n.headBlockNum
  binds : ∀ m : Node Name Tx Rest, m.Complete → ∀ i < blockCount.toNat, ∀ a b,
    n.fetchBlockByNumber (addressed blockNum interval i).toNat = some a →
    m.fetchBlockByNumber (addressed blockNum interval i).toNat = some b → h.Differ a b →
    ∀ r r', n.getBlockHash h.hashes blockNum blockCount interval = .ok r →
      m.getBlockHash h.hashes blockNum blockCount interval = .ok r' → r ≠ r'

theorem hashBlock_eq_ok {num : Nat} {r : String} :
    n.hashBlock h.hashes num = .ok r ↔
      ∃ b, n.fetchBlockByNumber num = some b ∧ h.ofBlock b = r := by
  unfold hashBlock
  cases n.fetchBlockByNumber num with
  | none => simp
  | some b => simp [BlockHashing.ofBlock, BlockHashing.hashes]

/-- A loop that forgets what it had returns what its last turn returns. -/
theorem foldlM_range_eq_ok {f : Nat → Except String String} {r init : String} (k : Nat) :
    (List.range (k + 1)).foldlM (fun _ i => f i) init = .ok r ↔
      (∀ i < k, ∃ r', f i = .ok r') ∧ f k = .ok r := by
  induction k generalizing r with
  | zero => simp only [List.range_succ, List.range_zero, List.nil_append, List.foldlM_cons,
      List.foldlM_nil, bind_pure, Nat.not_lt_zero, false_imp_iff, implies_true, true_and]
  | succ k ih =>
      rw [List.range_succ, List.foldlM_append, bind_eq_ok]
      simp only [List.foldlM_cons, List.foldlM_nil, bind_pure]
      constructor
      · rintro ⟨r', hbefore, hlast⟩
        obtain ⟨hall, hk⟩ := ih.mp hbefore
        refine ⟨fun i hi => ?_, hlast⟩
        rcases Nat.lt_succ_iff_lt_or_eq.mp hi with hi | rfl
        · exact hall i hi
        · exact ⟨r', hk⟩
      · rintro ⟨hall, hlast⟩
        obtain ⟨r', hk⟩ := hall k (Nat.lt_succ_self k)
        exact ⟨r', ih.mpr ⟨fun i hi => hall i (Nat.lt_succ_of_lt hi), hk⟩, hlast⟩

/-- **The answer is the hash of the last block.** -/
theorem getBlockHash_eq_ok (haccepts : n.Accepts blockNum blockCount interval) {r : String}
    {k : Nat}
    (hk : blockCount = k + 1) :
    n.getBlockHash h.hashes blockNum blockCount interval = .ok r ↔
      (∀ i < k, ∃ b, n.fetchBlockByNumber (blockNumAt blockNum interval i) = some b) ∧
        ∃ b, n.fetchBlockByNumber (blockNumAt blockNum interval k) = some b ∧ h.ofBlock b = r := by
  have hcount : blockCount.toNat = k + 1 := by omega
  unfold getBlockHash
  rw [ensure_bind_eq_ok, ensure_bind_eq_ok, ensure_bind_eq_ok, ensure_bind_eq_ok, hcount,
    foldlM_range_eq_ok, hashBlock_eq_ok]
  simp only [hashBlock_eq_ok, Bool.and_eq_true, decide_eq_true_eq, haccepts.count, haccepts.num,
    haccepts.enough, haccepts.interval, true_and]
  constructor
  · rintro ⟨hall, hlast⟩
    refine ⟨fun i hi => ?_, hlast⟩
    obtain ⟨_, b, hb, _⟩ := hall i hi
    exact ⟨b, hb⟩
  · rintro ⟨hall, hlast⟩
    refine ⟨fun i hi => ?_, hlast⟩
    obtain ⟨b, hb⟩ := hall i hi
    exact ⟨_, b, hb, rfl⟩

theorem accepts_of_eq_ok {r : String}
    (hr : n.getBlockHash h.hashes blockNum blockCount interval = .ok r) :
    n.Accepts blockNum blockCount interval := by
  unfold getBlockHash at hr
  simp only [ensure_bind_eq_ok, Bool.and_eq_true, decide_eq_true_eq] at hr
  exact ⟨hr.1, hr.2.1, hr.2.2.1, hr.2.2.2.1⟩

theorem blockNumAt_of_mem {i : Nat} (hlow : 0 ≤ addressed blockNum interval i)
    (hhigh : addressed blockNum interval i < uint32Size) :
    blockNumAt blockNum interval i = (addressed blockNum interval i).toNat := by
  have hsmall : addressed blockNum interval i < (4294967296 : Int) := hhigh
  unfold addressed at hlow hsmall
  unfold blockNumAt addressed
  rw [Int.emod_eq_of_lt hlow hsmall]

/-! ## Another branch -/

/-- The blocks `1` to `top` and `last` on top of them, all of them logged. -/
def branch (n : Node Name Tx Rest) (blocks : Nat → SignedBlock Name Tx) (top : Nat)
    (last : SignedBlock Name Tx) : Node Name Tx Rest :=
  { n with
    db := n.db.set { n.objects with
      headBlockNumber := last.blockNum, headBlockId := last.id, time := last.timestamp }
    forkDb := .empty
    blockLog := (List.range top).map (fun i => blocks (i + 1)) ++ [last] }

section Branch

variable {blocks : Nat → SignedBlock Name Tx} {top : Nat} {last : SignedBlock Name Tx}

theorem branch_fetch (hblocks : ∀ k, 1 ≤ k → k ≤ top → (blocks k).blockNum = k)
    (hlast : last.blockNum = top + 1) {b : SignedBlock Name Tx}
    (hb : b ∈ (List.range top).map (fun i => blocks (i + 1)) ++ [last]) :
    (n.branch blocks top last).fetchBlockByNumber b.blockNum = some b := by
  have hnumbers :
    ((List.range top).map (fun i => blocks (i + 1)) ++ [last]).map SignedBlock.blockNum =
      (List.range (top + 1)).map (· + 1) := by
    rw [List.map_append, List.map_map, List.range_succ, List.map_append, List.map_singleton,
      List.map_singleton, hlast]
    congr 1
    apply List.map_congr_left
    intro i hi
    exact hblocks (i + 1) (by omega) (Nat.succ_le_of_lt (List.mem_range.mp hi))
  have hnodup : (((List.range top).map (fun i => blocks (i + 1)) ++ [last]).map
      SignedBlock.blockNum).Nodup := by
    rw [hnumbers]
    exact List.nodup_range.map fun _ _ => Nat.succ.inj
  show (n.branch blocks top last).readBlockByNum b.blockNum = some b
  exact find?_eq_some_of_nodup hnodup hb

theorem branch_complete (hblocks : ∀ k, 1 ≤ k → k ≤ top → (blocks k).blockNum = k)
    (hlast : last.blockNum = top + 1) (hsmall : top + 1 < uint32Size) :
    (n.branch blocks top last).Complete where
  small := by
    show last.blockNum < uint32Size
    omega
  found := by
    intro num hone hhead
    change num ≤ last.blockNum at hhead
    by_cases hnum : num = top + 1
    · have hfound := branch_fetch (n := n) hblocks hlast
        (List.mem_append_right _ (List.mem_singleton_self last))
      exact ⟨last, by rwa [hnum, ← hlast], hlast.trans hnum.symm⟩
    · have hle : num ≤ top := by omega
      have hmem : blocks num ∈ (List.range top).map (fun i => blocks (i + 1)) := by
        refine List.mem_map.mpr ⟨num - 1, List.mem_range.mpr (by omega), ?_⟩
        rw [Nat.sub_add_cancel hone]
      have hfound := branch_fetch (n := n) hblocks hlast (List.mem_append_left _ hmem)
      rw [hblocks num hone hle] at hfound
      exact ⟨blocks num, hfound, hblocks num hone hle⟩

end Branch

/-! ## What it commits to -/

/-- What a node that has its chain answers, once all the numbers are numbers of
the chain. -/
theorem Complete.getBlockHash_eq_ok (hn : n.Complete)
    (haccepts : n.Accepts blockNum blockCount interval)
    (hrange : ∀ i < blockCount.toNat,
      1 ≤ addressed blockNum interval i ∧ addressed blockNum interval i ≤ n.headBlockNum)
    {k : Nat} (hk : blockCount = k + 1) {b : SignedBlock Name Tx}
    (hb : n.fetchBlockByNumber (addressed blockNum interval k).toNat = some b) :
    n.getBlockHash h.hashes blockNum blockCount interval = .ok (h.ofBlock b) := by
  have hnum : ∀ i < blockCount.toNat,
      blockNumAt blockNum interval i = (addressed blockNum interval i).toNat := by
    intro i hi
    obtain ⟨hlow, hhigh⟩ := hrange i hi
    have hsmall := hn.small
    exact blockNumAt_of_mem (by omega) (by omega)
  rw [Node.getBlockHash_eq_ok haccepts hk]
  refine ⟨fun i hi => ?_, b, ?_, rfl⟩
  · obtain ⟨hlow, hhigh⟩ := hrange i (by omega)
    obtain ⟨c, hc, -⟩ := hn.found (addressed blockNum interval i).toNat (by omega) (by omega)
    rw [hnum i (by omega)]
    exact ⟨c, hc⟩
  · rw [hnum k (by omega)]
    exact hb

theorem Commits.of_single (hh : h.Injective) (hn : n.Complete)
    (haccepts : n.Accepts blockNum 1 interval) : n.Commits h blockNum 1 interval where
  inChain := by
    intro i hi
    obtain rfl : i = 0 := by omega
    have hnum := haccepts.num
    rw [addressed_zero]
    omega
  binds := by
    intro m hm i hi a b ha hb hdiffer r r' hr hr' hsame
    obtain rfl : i = 0 := by omega
    have hnum := haccepts.num
    have hsmall := hn.small
    have hat : blockNumAt blockNum interval 0 = (addressed blockNum interval 0).toNat :=
      blockNumAt_of_mem (by rw [addressed_zero]; omega) (by rw [addressed_zero]; omega)
    obtain ⟨-, c, hc, hcr⟩ := (Node.getBlockHash_eq_ok haccepts (k := 0) rfl).mp hr
    obtain ⟨-, d, hd, hdr⟩ :=
      (Node.getBlockHash_eq_ok (accepts_of_eq_ok hr') (k := 0) rfl).mp hr'
    rw [hat] at hc hd
    obtain rfl := Option.some.inj (ha.symm.trans hc)
    obtain rfl := Option.some.inj (hb.symm.trans hd)
    exact hh.ofBlock_ne hdiffer (hcr.trans (hsame.trans hdr.symm))

/-- There is another chain with the same blocks up to `top` and another block
after them. -/
theorem Complete.exists_twin (hh : h.Injective) (hn : n.Complete) {top : Nat}
    (htop : top + 1 ≤ n.headBlockNum) :
    ∃ m : Node Name Tx Rest, m.Complete ∧ m.headBlockNum = top + 1 ∧
      (∀ num, 1 ≤ num → num ≤ top → m.fetchBlockByNumber num = n.fetchBlockByNumber num) ∧
      ∃ a b, n.fetchBlockByNumber (top + 1) = some a ∧ m.fetchBlockByNumber (top + 1) = some b ∧
        h.Differ a b := by
  have hsmall := hn.small
  obtain ⟨first, -⟩ := hn.found 1 le_rfl (by omega)
  have : Nonempty (SignedBlock Name Tx) := ⟨first⟩
  choose! blocks hblocks using hn.found
  obtain ⟨hfound, hnum⟩ := hblocks (top + 1) (by omega) htop
  -- the same block a second later, and empty
  let last : SignedBlock Name Tx :=
    { blocks (top + 1) with
      timestamp := (blocks (top + 1)).timestamp + 1, transactions := []
      hash := (blocks (top + 1)).hash + 1 }
  have hlast : last.blockNum = top + 1 := hnum
  have hbelow : ∀ k, 1 ≤ k → k ≤ top → (blocks k).blockNum = k :=
    fun k hone hle => (hblocks k hone (by omega)).2
  refine ⟨n.branch blocks top last, branch_complete hbelow hlast (by omega), hlast,
    fun num hone hle => ?_, blocks (top + 1), last, hfound, ?_, ?_⟩
  · have hmem : blocks num ∈ (List.range top).map (fun i => blocks (i + 1)) := by
      refine List.mem_map.mpr ⟨num - 1, List.mem_range.mpr (by omega), ?_⟩
      rw [Nat.sub_add_cancel hone]
    have hread := branch_fetch (n := n) hbelow hlast (List.mem_append_left _ hmem)
    rw [hbelow num hone hle] at hread
    rw [hread, (hblocks num hone (by omega)).1]
  · have hread := branch_fetch (n := n) hbelow hlast
      (List.mem_append_right _ (List.mem_singleton_self last))
    rwa [hlast] at hread
  · have hempty : (blocks (top + 1)).transactions.isEmpty ∨ last.transactions.isEmpty := Or.inr rfl
    unfold BlockHashing.Differ
    rw [if_pos hempty]
    intro hdigest
    have htime := hh.digest _ _ hdigest
    change _ = ((blocks (top + 1)).timestamp + 1) % uint32Size at htime
    unfold uint32Size at htime
    omega

/-- With more blocks than one the first of them can be another block. -/
theorem not_commits_of_lt (hh : h.Injective) (hn : n.Complete)
    (haccepts : n.Accepts blockNum blockCount interval) (hmany : 1 < blockCount) :
    ¬n.Commits h blockNum blockCount interval := by
  intro hcommits
  have hrange := hcommits.inChain
  obtain ⟨hpos, hhead⟩ := haccepts.num
  obtain ⟨top, htop⟩ : ∃ top : Nat, blockNum = top + 1 := ⟨(blockNum - 1).toNat, by omega⟩
  obtain ⟨k, hk⟩ : ∃ k : Nat, blockCount = k + 1 := ⟨(blockCount - 1).toNat, by omega⟩
  have htwin : top + 1 ≤ n.headBlockNum := by omega
  obtain ⟨m, hm, hmhead, hbelow, a, b, ha, hb, hdiffer⟩ := hn.exists_twin hh htwin
  have hmaccepts : m.Accepts blockNum blockCount interval :=
    ⟨haccepts.count, ⟨hpos, by omega⟩, haccepts.enough, haccepts.interval⟩
  have hmrange : ∀ i < blockCount.toNat, 1 ≤ addressed blockNum interval i ∧
      addressed blockNum interval i ≤ m.headBlockNum := by
    intro i hi
    have hstride : 0 ≤ (i : Int) * interval :=
      Int.mul_nonneg (by omega) (by have := haccepts.interval.1; omega)
    refine ⟨(hrange i hi).1, ?_⟩
    unfold addressed
    omega
  -- the last block that is addressed is the same on both
  have hpast : addressed blockNum interval k ≤ top := by
    have hstride : (1 : Int) * 1 ≤ k * interval :=
      Int.mul_le_mul (by omega) haccepts.interval.1 (by decide) (by omega)
    unfold addressed
    omega
  obtain ⟨hlow, hhigh⟩ := hrange k (by omega)
  obtain ⟨c, hc, -⟩ := hn.found (addressed blockNum interval k).toNat (by omega) (by omega)
  have hmc := (hbelow (addressed blockNum interval k).toNat (by omega) (by omega)).trans hc
  have hnum : (addressed blockNum interval 0).toNat = top + 1 := by
    rw [addressed_zero]
    omega
  exact hcommits.binds m hm 0 (by omega) a b (hnum ▸ ha) (hnum ▸ hb) hdiffer _ _
    (hn.getBlockHash_eq_ok haccepts hrange hk hc) (hm.getBlockHash_eq_ok hmaccepts hmrange hk hmc)
      rfl

/-- **What `get_block_hash` commits to**: on a node that has its chain, for
arguments that are accepted, it commits to every block they address if and only
if they address one block. -/
theorem getBlockHash_commits_iff (h : BlockHashing Name Tx) (hh : h.Injective)
    (n : Node Name Tx Rest)
    (hn : n.Complete) (blockNum blockCount interval : Int)
    (haccepts : n.Accepts blockNum blockCount interval) :
    n.Commits h blockNum blockCount interval ↔ blockCount = 1 := by
  constructor
  · intro hcommits
    by_contra hne
    have hcount := haccepts.count
    exact not_commits_of_lt hh hn haccepts (by omega) hcommits
  · rintro rfl
    exact .of_single hh hn haccepts

end Node

/-! ### Two blocks -/

theorem toNat_ofNat_of_byte (b : UInt8) : (Char.ofNat b.toNat).toNat = b.toNat := by
  have hlt : b.toNat < 256 := b.toNat_lt
  have hvalid : b.toNat.isValidChar := Or.inl (by omega)
  unfold Char.ofNat
  rw [dif_pos hvalid]
  rfl

/-- A digest is the time of the block, and a hash lists the bytes. -/
def timeHashing : BlockHashing Nat Nat where
  digest b := encodeLE 32 (b.timestamp % uint32Size)
  merkleRoot b := encodeLE 20 b.transactions.length
  ripemd160 bytes := String.ofList (bytes.map fun b => Char.ofNat b.toNat)

theorem timeHashing_injective : timeHashing.Injective where
  ripemd160 := by
    intro bytes bytes' hsame
    refine List.map_injective_iff.mpr (fun b b' hchar => ?_) (String.ofList_injective hsame)
    have hnat := congrArg Char.toNat hchar
    rw [toNat_ofNat_of_byte, toNat_ofNat_of_byte] at hnat
    exact UInt8.toNat_inj.mp hnat
  digest := by
    intro a b hsame
    have hfits : ∀ n : Nat, n % uint32Size < 256 ^ 32 := by
      intro n
      have hlt : n % uint32Size < 4294967296 := Nat.mod_lt n (by decide)
      exact hlt.trans (by decide)
    have hnumber := congrArg decodeLE hsame
    change decodeLE (encodeLE 32 _) = decodeLE (encodeLE 32 _) at hnumber
    rwa [decodeLE_encodeLE (hfits _), decodeLE_encodeLE (hfits _)] at hnumber
  digestLength := fun _ => length_encodeLE _ _
  merkleRootLength := fun _ => length_encodeLE _ _

/-- A node with two blocks, the second of which was made at `time`. -/
def twoBlocks (time : Nat) : Node Nat Nat (List Nat) :=
  { openedAt 2 0 [] with
    forkDb := .empty
    blockLog := [soloBlock 1 0 1 [], { soloBlock 2 1 time [] with timestamp := time }] }

theorem twoBlocks_complete (time : Nat) : (twoBlocks time).Complete where
  small := by
    show 2 < uint32Size
    decide
  found := by
    intro num hone hle
    change num ≤ 2 at hle
    obtain rfl | rfl : num = 1 ∨ num = 2 := by omega
    · exact ⟨soloBlock 1 0 1 [], rfl, rfl⟩
    · exact ⟨{ soloBlock 2 1 time [] with timestamp := time }, rfl, rfl⟩

theorem getBlockHash_commits_single : (twoBlocks 6).Commits timeHashing 2 1 1 :=
  (Node.getBlockHash_commits_iff timeHashing timeHashing_injective (twoBlocks 6)
    (twoBlocks_complete 6)
    2 1 1 ⟨by decide, by decide, by decide, by decide⟩).mpr rfl

/-- Asked for both blocks, a node answers with the hash of the first. -/
theorem getBlockHash_forgets :
    timeHashing.Injective ∧ (twoBlocks 6).Complete ∧ (twoBlocks 6).Accepts 2 2 1 ∧
      ¬(twoBlocks 6).Commits timeHashing 2 2 1 := by
  refine ⟨timeHashing_injective, twoBlocks_complete 6, ⟨by decide, by decide, by decide, by decide⟩,
    fun hcommits => ?_⟩
  exact hcommits.binds (twoBlocks 9) (twoBlocks_complete 9) 0 (by decide)
    { soloBlock 2 1 6 [] with timestamp := 6 } { soloBlock 2 1 9 [] with timestamp := 9 } rfl rfl
    (by decide) _ _ rfl rfl rfl

end Gamebank.Chain
