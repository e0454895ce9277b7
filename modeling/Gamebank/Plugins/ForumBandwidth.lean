import Gamebank.Ledger.Calls
import Gamebank.Ledger.Contracts
import Gamebank.Protocol.BlockPacking
import Mathlib.Data.List.Dedup

/-!
# The bandwidth of a transaction

`on_pre_apply_transaction` and `update_account_bandwidth` of
`witness_plugin.cpp`: every account a transaction requires is charged for its
packed size, unless one of its operations is exempt. The bands belong to the
plugin; the ledger is only read. An operation is known here by its tag, the
accounts it requires and its packed fields.
-/

namespace Gamebank.Plugins

open Gamebank.Lib Gamebank.Protocol Gamebank.Ledger

/-! ## Operations -/

/-- The alternatives of `operation`, in their order. -/
inductive OperationTag where
  | vote | comment
  | transfer | transferToVesting | withdrawVesting
  | limitOrderCreate | limitOrderCancel
  | feedPublish | convert
  | accountCreate | accountUpdate
  | witnessUpdate | accountWitnessVote | accountWitnessProxy
  | pow | custom | reportOverProduction | deleteComment | customJson | commentOptions
  | setWithdrawVestingRoute | limitOrderCreate2 | claimAccount | createClaimedAccount
  | requestAccountRecovery | recoverAccount | changeRecoveryAccount
  | escrowTransfer | escrowDispute | escrowRelease | pow2 | escrowApprove
  | transferToSavings | transferFromSavings | cancelTransferFromSavings
  | customBinary | declineVotingRights | resetAccount | setResetAccount | claimRewardBalance
  | delegateVestingShares | accountCreateWithDelegation | witnessSetProperties
  | crowdfunding | invest
  | nonfungibleFundCreate | nonfungibleFundTransfer | nonfungibleFundPutUpForSale
  | nonfungibleFundWithdrawFromSale | nonfungibleFundBuy
  | contractDeploy | contractCall
  | fillConvertRequest | authorReward | curationReward | commentReward | liquidityReward
  | interest | fillVestingWithdraw | fillOrder | shutdownWitness | fillTransferFromSavings
  | hardfork | commentPayoutUpdate | returnVestingDelegation | commentBenefactorReward
  | producerReward | contractLog
deriving DecidableEq

/-- `operation`. -/
structure Operation where
  tag : OperationTag
  /-- What `operation_get_required_authorities` adds to the three sets. -/
  required : List AccountName
  fields : List UInt8

/-- `is_need_update_bandwidth_operation`. -/
def Operation.needsBandwidth (op : Operation) : Bool :=
  match op.tag with
  | .transferToVesting => false
  | _ => true

/-- `is_market_operation`. -/
def Operation.isMarket (op : Operation) : Bool :=
  match op.tag with
  | .limitOrderCreate | .limitOrderCancel | .transfer | .transferToVesting | .contractDeploy
  | .contractCall => true
  | _ => false

def Operation.pack (op : Operation) : List UInt8 := packUnsigned op.tag.ctorIdx ++ op.fields

/-- `signed_transaction`; its extensions are packed. -/
structure SignedTransaction where
  refBlockNum : UInt16
  refBlockPrefix : UInt32
  expiration : UInt32
  operations : List Operation
  extensions : List (List UInt8)
  signatures : List (Vector UInt8 65)

namespace SignedTransaction

/-- `fc::raw::pack` of a vector of packed elements. -/
def packAll (elements : List (List UInt8)) : List UInt8 :=
  packUnsigned (elements.length % 4294967296) ++ elements.flatten

def pack (trx : SignedTransaction) : List UInt8 :=
  encodeLE 2 trx.refBlockNum.toNat ++ encodeLE 4 trx.refBlockPrefix.toNat ++
    encodeLE 4 trx.expiration.toNat ++ packAll (trx.operations.map Operation.pack) ++
    packAll trx.extensions ++ packAll (trx.signatures.map fun s => s.toList)

/-- `fc::raw::pack_size`. -/
def packSize (trx : SignedTransaction) : Nat := trx.pack.length

/-- `get_required_authorities`, all into one set. -/
def required (trx : SignedTransaction) : List AccountName :=
  (trx.operations.flatMap Operation.required).dedup

end SignedTransaction

/-! ## The plugin -/

/-- `bandwidth_type`; nothing is of type `none`. -/
inductive BandwidthType where
  | forum
  | market
deriving DecidableEq

/-- `account_bandwidth_object`. -/
structure AccountBandwidth where
  averageBandwidth : Int
  lifetimeBandwidth : Int
  lastBandwidthUpdate : Nat
  remainBandwidthPercent : Nat
deriving DecidableEq

/-- As it is created. -/
def AccountBandwidth.new : AccountBandwidth := ⟨0, 0, 0, 10000⟩

/-- The plugin's objects, of which the reserve ratio is there after the first
block, and whether the node is producing. -/
structure BandwidthPlugin where
  bands : AccountName → BandwidthType → Option AccountBandwidth
  maxVirtualBandwidth : Option Int
  isProducing : Bool

namespace BandwidthPlugin

/-- The band that is found or created. -/
def bandOf (p : BandwidthPlugin) (name : AccountName) (type : BandwidthType) : AccountBandwidth :=
  (p.bands name type).getD .new

def setBand (p : BandwidthPlugin) (name : AccountName) (type : BandwidthType)
    (band : AccountBandwidth) : BandwidthPlugin :=
  { p with bands := fun n t => if n = name ∧ t = type then some band else p.bands n t }

/-- What is left at the time `now` of a band's average. -/
def decayed (now : Nat) (band : AccountBandwidth) : Except String Int :=
  let deltaTime := (now : Int) - band.lastBandwidthUpdate
  if WitnessPlugin.bandwidthAverageWindow < deltaTime then .ok 0
  else lowWord (toUInt128 ((WitnessPlugin.bandwidthAverageWindow - deltaTime) *
    toUInt128 band.averageBandwidth) / WitnessPlugin.bandwidthAverageWindow)

/-- `remain_bandwidth_percent`; a `uint16_t`. -/
def remainPercent (allocated used : Int) : Except String Nat :=
  if used < allocated then do
    let whole := allocated / WitnessPlugin.bandwidthPrecision
    ensure (whole ≠ 0) "Division by zero"
    let percent ← lowWord (toUInt128 ((allocated - used) / WitnessPlugin.bandwidthPrecision *
      hundredPercent) / whole)
    return (toUInt64 percent % 65536).toNat
  else .ok 0

/-- Only a band of type `forum` gets a new percentage. -/
def nextPercent (type : BandwidthType) (band : AccountBandwidth) (allocated used : Int) :
    Except String Nat :=
  if type = .forum then remainPercent allocated used else .ok band.remainBandwidthPercent

/-- `update_account_bandwidth`. -/
def updateAccountBandwidth (p : BandwidthPlugin) (s : Database) (a : Account) (trxSize : Nat)
    (type : BandwidthType) : Except String BandwidthPlugin :=
  if 0 < s.props.totalVestingShares then do
    let band := p.bandOf a.name type
    let left ← decayed s.headBlockTime band
    let trxBandwidth : Int := trxSize % 4294967296 * WitnessPlugin.bandwidthPrecision
    ensure (fitsInt64 (left + trxBandwidth)) "overflow"
    ensure (fitsInt64 (band.lifetimeBandwidth + trxBandwidth)) "overflow"
    let band :=
      { band with
        averageBandwidth := left + trxBandwidth
        lifetimeBandwidth := band.lifetimeBandwidth + trxBandwidth
        lastBandwidthUpdate := s.headBlockTime }
    let shares ← WitnessPlugin.effectiveShares a
    let total := toUInt128 s.props.totalVestingShares
    let average := toUInt128 band.averageBandwidth
    let maxVirtualBandwidth ← Database.require p.maxVirtualBandwidth
    let percent ← nextPercent type band (toUInt128 (maxVirtualBandwidth * shares) / total) average
    let hasBandwidth : Bool :=
      toUInt128 (average * total) < toUInt128 (shares * maxVirtualBandwidth)
    ensure (!p.isProducing || hasBandwidth) "bandwidth limit exceeded"
    return p.setBand a.name type { band with remainBandwidthPercent := percent }
  else .ok p

/-- The charge of one account. -/
def chargeAccount (s : Database) (trx : SignedTransaction) (p : BandwidthPlugin)
    (name : AccountName) : Except String BandwidthPlugin := do
  let a ← s.getAccount name
  let p ← p.updateAccountBandwidth s a trx.packSize .forum
  if trx.operations.any Operation.isMarket then
    p.updateAccountBandwidth s a (trx.packSize * 10) .market
  else return p

/-- `on_pre_apply_transaction`. -/
def onPreApplyTransaction (p : BandwidthPlugin) (s : Database) (trx : SignedTransaction) :
    Except String BandwidthPlugin :=
  if trx.operations.any fun op => !op.needsBandwidth then .ok p
  else trx.required.foldlM (chargeAccount s trx) p

/-! ## What is charged -/

/-- The forum band of the account was charged with the amount: it is added to
what is left of the average, and to the lifetime total. -/
structure Charged (p p' : BandwidthPlugin) (s : Database) (name : AccountName) (amount : Int) :
    Prop where
  average : ∃ left, decayed s.headBlockTime (p.bandOf name .forum) = .ok left ∧
    (p'.bandOf name .forum).averageBandwidth = left + amount
  lifetime : (p'.bandOf name .forum).lifetimeBandwidth =
    (p.bandOf name .forum).lifetimeBandwidth + amount

/-- The charge of a size. -/
def sizeCharge (size : Nat) : Int := size % 4294967296 * WitnessPlugin.bandwidthPrecision

variable {p p' : BandwidthPlugin} {s : Database} {trx : SignedTransaction} {name n : AccountName}

theorem bandOf_setBand (p : BandwidthPlugin) (name n : AccountName) (type t : BandwidthType)
    (band : AccountBandwidth) :
    (p.setBand name type band).bandOf n t = if n = name ∧ t = type then band else p.bandOf n t := by
  unfold bandOf setBand
  by_cases h : n = name ∧ t = type
  · simp [h]
  · simp [h]

/-- What `update_account_bandwidth` writes. -/
theorem updateAccountBandwidth_spec (p : BandwidthPlugin) (a : Account) (size : Nat)
    (type : BandwidthType) (htotal : 0 < s.props.totalVestingShares) :
    Returns (p.updateAccountBandwidth s a size type) fun p' => ∃ left band,
      decayed s.headBlockTime (p.bandOf a.name type) = .ok left ∧
      band.averageBandwidth = left + sizeCharge size ∧
      band.lifetimeBandwidth = (p.bandOf a.name type).lifetimeBandwidth + sizeCharge size ∧
      p' = p.setBand a.name type band := by
  intro p' h
  unfold updateAccountBandwidth at h
  rw [if_pos htotal] at h
  obtain ⟨left, hleft, h⟩ := bind_eq_ok.mp h
  obtain ⟨-, h⟩ := ensure_bind_eq_ok.mp h
  obtain ⟨-, h⟩ := ensure_bind_eq_ok.mp h
  obtain ⟨shares, -, h⟩ := bind_eq_ok.mp h
  obtain ⟨maxVirtual, -, h⟩ := bind_eq_ok.mp h
  obtain ⟨percent, -, h⟩ := bind_eq_ok.mp h
  obtain ⟨-, h⟩ := ensure_bind_eq_ok.mp h
  exact ⟨left, _, hleft, rfl, rfl, (pure_eq_ok.mp h).symm⟩

/-- One account is charged once, and no other. -/
theorem chargeAccount_spec (p : BandwidthPlugin) (name : AccountName)
    (htotal : 0 < s.props.totalVestingShares) :
    Returns (chargeAccount s trx p name) fun p' =>
      Charged p p' s name (sizeCharge trx.packSize) ∧
        ∀ n, n ≠ name → p'.bandOf n .forum = p.bandOf n .forum := by
  intro p' h
  rw [chargeAccount, bind_eq_ok] at h
  obtain ⟨a, ha, h⟩ := h
  obtain rfl : a.name = name := by
    simpa using List.find?_some (Database.require_eq_ok.mp ha)
  obtain ⟨p₁, hforum, h⟩ := bind_eq_ok.mp h
  obtain ⟨left, band, hleft, haverage, hlifetime, rfl⟩ :=
    updateAccountBandwidth_spec p a trx.packSize .forum htotal p₁ hforum
  have hsame : ∀ m, p'.bandOf m .forum = (p.setBand a.name .forum band).bandOf m .forum := by
    intro m
    by_cases hmarket : trx.operations.any Operation.isMarket = true
    · rw [if_pos hmarket] at h
      obtain ⟨-, market, -, -, -, rfl⟩ := updateAccountBandwidth_spec _ a _ .market htotal p' h
      rw [bandOf_setBand, if_neg (by simp)]
    · rw [if_neg hmarket] at h
      rw [pure_eq_ok.mp h]
  have hhere : p'.bandOf a.name .forum = band := by
    rw [hsame, bandOf_setBand, if_pos ⟨rfl, rfl⟩]
  refine ⟨⟨⟨left, hleft, ?_⟩, ?_⟩, ?_⟩
  · rw [hhere, haverage]
  · rw [hhere, hlifetime]
  · intro n hn
    rw [hsame, bandOf_setBand, if_neg (by simp [hn])]

/-- Everyone in the list is charged once. -/
theorem chargeAll_spec (names : List AccountName) (hnodup : names.Nodup)
    (htotal : 0 < s.props.totalVestingShares) :
    Returns (names.foldlM (chargeAccount s trx) p) fun p' =>
      (∀ name ∈ names, Charged p p' s name (sizeCharge trx.packSize)) ∧
        ∀ n, n ∉ names → p'.bandOf n .forum = p.bandOf n .forum := by
  induction names generalizing p with
  | nil =>
      intro p' h
      rw [List.foldlM_nil, pure_eq_ok] at h
      subst h
      simp
  | cons first rest ih =>
      intro p' h
      rw [List.foldlM_cons] at h
      obtain ⟨p₁, hfirst, h⟩ := bind_eq_ok.mp h
      obtain ⟨hcharged, hothers⟩ := chargeAccount_spec p first htotal p₁ hfirst
      obtain ⟨hnotin, hrest⟩ := List.nodup_cons.mp hnodup
      obtain ⟨hall, hnone⟩ := ih hrest p' h
      constructor
      · intro name hname
        rcases List.mem_cons.mp hname with rfl | hname
        · -- the rest of the list leaves the first band alone
          have hsame := hnone name hnotin
          obtain ⟨⟨left, hleft, haverage⟩, hlifetime⟩ := hcharged
          exact ⟨⟨left, hleft, by rw [hsame, haverage]⟩, by rw [hsame, hlifetime]⟩
        · have hne : name ≠ first := by
            intro heq
            exact hnotin (heq ▸ hname)
          obtain ⟨⟨left, hleft, haverage⟩, hlifetime⟩ := hall name hname
          rw [hothers name hne] at hleft hlifetime
          exact ⟨⟨left, hleft, haverage⟩, hlifetime⟩
      · intro n hn
        rw [List.mem_cons, not_or] at hn
        rw [hnone n hn.2, hothers n hn.1]

/-- A transaction without an exempt operation. -/
theorem onPreApplyTransaction_spec (p : BandwidthPlugin)
    (hneeds : ∀ op ∈ trx.operations, op.needsBandwidth = true)
    (htotal : 0 < s.props.totalVestingShares) :
    Returns (p.onPreApplyTransaction s trx) fun p' =>
      ∀ name ∈ trx.required, Charged p p' s name (sizeCharge trx.packSize) := by
  intro p' h
  have hany : ¬(trx.operations.any fun op => !op.needsBandwidth) = true := by
    simpa using hneeds
  rw [onPreApplyTransaction, if_neg hany] at h
  exact (chargeAll_spec trx.required (List.nodup_dedup _) htotal p' h).1

/-- One exempt operation is enough for nothing to be charged. -/
theorem onPreApplyTransaction_exempt (p : BandwidthPlugin) {op : Operation}
    (hop : op ∈ trx.operations) (hexempt : op.needsBandwidth = false) :
    p.onPreApplyTransaction s trx = .ok p := by
  have hany : (trx.operations.any fun op => !op.needsBandwidth) = true :=
    List.any_eq_true.mpr ⟨op, hop, by rw [hexempt]; rfl⟩
  rw [onPreApplyTransaction, if_pos hany]

end BandwidthPlugin

/-! ## Larger transactions -/

namespace SignedTransaction

/-- The transaction has the operations of `trx` in their order, and more; the
rest is the same. -/
structure Extends (larger trx : SignedTransaction) : Prop where
  operations : trx.operations.Sublist larger.operations
  refBlockNum : larger.refBlockNum = trx.refBlockNum
  refBlockPrefix : larger.refBlockPrefix = trx.refBlockPrefix
  expiration : larger.expiration = trx.expiration
  extensions : larger.extensions = trx.extensions
  signatures : larger.signatures = trx.signatures

variable {larger trx : SignedTransaction}

theorem mem_required {name : AccountName} :
    name ∈ trx.required ↔ ∃ op ∈ trx.operations, name ∈ op.required := by
  rw [required, List.mem_dedup, List.mem_flatMap]

theorem Extends.required (h : larger.Extends trx) {name : AccountName}
    (hname : name ∈ trx.required) : name ∈ larger.required := by
  obtain ⟨op, hop, hin⟩ := mem_required.mp hname
  exact mem_required.mpr ⟨op, h.operations.subset hop, hin⟩

/-- An operation takes at least a byte. -/
theorem length_pack_pos (op : Operation) : 0 < op.pack.length := by
  have hle := length_packUnsigned_mono (Nat.zero_le op.tag.ctorIdx)
  rw [length_packUnsigned_of_lt (by decide)] at hle
  rw [Operation.pack, List.length_append]
  omega

theorem length_flatten_pack (ops : List Operation) :
    ops.length ≤ (ops.map Operation.pack).flatten.length := by
  induction ops with
  | nil => exact Nat.le_refl 0
  | cons op rest ih =>
      have hpos := length_pack_pos op
      rw [List.map_cons, List.flatten_cons, List.length_append, List.length_cons]
      omega

theorem length_flatten_mono {small large : List Operation} (h : small.Sublist large) :
    (small.map Operation.pack).flatten.length ≤ (large.map Operation.pack).flatten.length := by
  induction h with
  | slnil => exact Nat.le_refl _
  | cons op _ ih =>
      simp only [List.map_cons, List.flatten_cons, List.length_append]
      omega
  | cons_cons op _ ih =>
      simp only [List.map_cons, List.flatten_cons, List.length_append]
      omega

/-- More operations take no fewer bytes. -/
theorem Extends.packSize_le (h : larger.Extends trx) (hfits : larger.packSize < 4294967296) :
    trx.packSize ≤ larger.packSize := by
  have hcount := h.operations.length_le
  have hbytes := length_flatten_pack larger.operations
  have hflat := length_flatten_mono h.operations
  simp only [packSize, pack, packAll, List.length_append, List.length_map, length_encodeLE,
    h.extensions, h.signatures] at hfits ⊢
  have hsmall : larger.operations.length % 4294967296 = larger.operations.length := by
    exact Nat.mod_eq_of_lt (by omega)
  have hsmall' : trx.operations.length % 4294967296 = trx.operations.length := by
    exact Nat.mod_eq_of_lt (by omega)
  rw [hsmall, hsmall']
  have hprefix := length_packUnsigned_mono hcount
  omega

end SignedTransaction

namespace BandwidthPlugin

variable {p : BandwidthPlugin} {s : Database} {trx : SignedTransaction}

/-- What was added to the lifetime total of the account's forum band. -/
def charge (p p' : BandwidthPlugin) (name : AccountName) : Int :=
  (p'.bandOf name .forum).lifetimeBandwidth - (p.bandOf name .forum).lifetimeBandwidth

theorem Charged.charge_eq {p' : BandwidthPlugin} {name : AccountName} {amount : Int}
    (h : Charged p p' s name amount) : charge p p' name = amount := by
  rw [charge, h.lifetime]
  omega

theorem sizeCharge_of_lt {size : Nat} (h : size < 4294967296) :
    sizeCharge size = size * WitnessPlugin.bandwidthPrecision := by
  have hmod : (size : Int) % 4294967296 = size := by omega
  rw [sizeCharge, hmod]

/-- Everyone the transaction requires is charged for its size, and no one less
than with fewer operations. -/
structure NotAvoided (p : BandwidthPlugin) (s : Database) (trx : SignedTransaction) : Prop where
  charged : Returns (p.onPreApplyTransaction s trx) fun p' => ∀ name ∈ trx.required,
    ∃ amount, trx.packSize * WitnessPlugin.bandwidthPrecision ≤ amount ∧ Charged p p' s name amount
  notLowered : ∀ smaller, trx.Extends smaller →
    Returns (p.onPreApplyTransaction s smaller) fun p₀ =>
    Returns (p.onPreApplyTransaction s trx) fun p' => ∀ name ∈ smaller.required,
      charge p p₀ name ≤ charge p p' name

theorem packSize_pos (trx : SignedTransaction) : 0 < trx.packSize := by
  simp only [SignedTransaction.packSize, SignedTransaction.pack, List.length_append,
    length_encodeLE]
  omega

/-- **Bundling**: a transaction whose size has 32 bits, as every block's has, is
charged for if and only if none of its operations is exempt, or it requires no
account. -/
theorem bandwidth_not_avoided_iff (p : BandwidthPlugin) (s : Database) (trx : SignedTransaction)
    (htotal : 0 < s.props.totalVestingShares) (hsize : trx.packSize < 4294967296) :
    NotAvoided p s trx ↔
      (∀ op ∈ trx.operations, op.needsBandwidth = true) ∨ trx.required = [] := by
  constructor
  · intro h
    by_cases hneeds : ∀ op ∈ trx.operations, op.needsBandwidth = true
    · exact .inl hneeds
    · right
      simp only [not_forall, Bool.not_eq_true] at hneeds
      obtain ⟨op, hop, hexempt⟩ := hneeds
      rw [List.eq_nil_iff_forall_not_mem]
      intro name hname
      obtain ⟨amount, hle, hcharged⟩ :=
        h.charged p (onPreApplyTransaction_exempt p hop hexempt) name hname
      -- nothing was written, so the charge is zero
      have hzero : amount = 0 := by
        rw [← hcharged.charge_eq, charge, Int.sub_self]
      have hpos := packSize_pos trx
      simp only [hzero, WitnessPlugin.bandwidthPrecision] at hle
      omega
  · rintro (hneeds | hnobody)
    · refine ⟨?_, ?_⟩
      · intro p' hp' name hname
        have hcharged := onPreApplyTransaction_spec p hneeds htotal p' hp' name hname
        exact ⟨_, (sizeCharge_of_lt hsize).ge, hcharged⟩
      · intro smaller hextends p₀ hp₀ p' hp' name hname
        have hsmaller : ∀ op ∈ smaller.operations, op.needsBandwidth = true :=
          fun op hop => hneeds op (hextends.operations.subset hop)
        have hle := hextends.packSize_le hsize
        have h₀ := onPreApplyTransaction_spec p hsmaller htotal p₀ hp₀ name hname
        have h' := onPreApplyTransaction_spec p hneeds htotal p' hp' name (hextends.required hname)
        rw [h₀.charge_eq, h'.charge_eq, sizeCharge_of_lt hsize, sizeCharge_of_lt (by omega),
          WitnessPlugin.bandwidthPrecision]
        omega
    · refine ⟨?_, ?_⟩
      · intro p' _ name hname
        rw [hnobody] at hname
        cases hname
      · intro smaller hextends p₀ _ p' _ name hname
        have hin := hextends.required hname
        rw [hnobody] at hin
        cases hin

/-! ## A vote, alone and bundled -/

/-- A genesis state with shares. -/
def sharesState : Database :=
  let s := Database.genesis 1000
  { s with props := { s.props with totalVestingShares := 1000 } }

/-- The plugin after the first block, with nobody charged yet. -/
def freshPlugin : BandwidthPlugin where
  bands := fun _ _ => none
  maxVirtualBandwidth := some 1000000
  isProducing := false

/-- A transaction of the operations. -/
def bareTransaction (operations : List Operation) : SignedTransaction :=
  ⟨0, 0, 0, operations, [], []⟩

/-- `"initminer"`, packed. -/
def initMinerBytes : List UInt8 := [9, 105, 110, 105, 116, 109, 105, 110, 101, 114]

/-- One of the smallest unit of GBC, packed. -/
def unitBytes : List UInt8 := encodeLE 8 1 ++ [3, 71, 66, 0, 0, 0, 0, 0]

/-- A transfer to the same account, without a memo. -/
def unitTransfer : Operation :=
  ⟨.transfer, [initMinerName], initMinerBytes ++ initMinerBytes ++ unitBytes ++ [0]⟩

/-- A power up of the same account. -/
def unitPowerUp : Operation :=
  ⟨.transferToVesting, [initMinerName], initMinerBytes ++ initMinerBytes ++ unitBytes⟩

/-- The lifetime total of the account after the transaction. -/
def lifetimeAfter (trx : SignedTransaction) : Except String Int := do
  let p ← freshPlugin.onPreApplyTransaction sharesState trx
  return (p.bandOf initMinerName .forum).lifetimeBandwidth

/-- A transfer alone is charged for its 51 bytes. -/
theorem bandwidth_not_avoided_iff_transfer :
    lifetimeAfter (bareTransaction [unitTransfer]) = .ok 51000000 ∧
    NotAvoided freshPlugin sharesState (bareTransaction [unitTransfer]) := by
  refine ⟨by decide +kernel, ?_⟩
  have hiff := bandwidth_not_avoided_iff freshPlugin sharesState (bareTransaction [unitTransfer])
    (by decide) (by decide +kernel)
  exact hiff.mpr (.inl (by decide))

/-- With a power up behind it, the same transfer is free. -/
theorem bundled_transfer_free :
    lifetimeAfter (bareTransaction [unitTransfer, unitPowerUp]) = .ok 0 ∧
    ¬NotAvoided freshPlugin sharesState (bareTransaction [unitTransfer, unitPowerUp]) := by
  refine ⟨by decide +kernel, ?_⟩
  intro h
  have hin : unitPowerUp ∈ (bareTransaction [unitTransfer, unitPowerUp]).operations := by
    simp [bareTransaction]
  obtain ⟨amount, hle, hcharged⟩ :=
    h.charged freshPlugin (onPreApplyTransaction_exempt freshPlugin hin rfl) initMinerName
      (by decide)
  have hzero : amount = 0 := by
    rw [← hcharged.charge_eq, charge, Int.sub_self]
  have hpos := packSize_pos (bareTransaction [unitTransfer, unitPowerUp])
  simp only [hzero, WitnessPlugin.bandwidthPrecision] at hle
  omega

end BandwidthPlugin

end Gamebank.Plugins
