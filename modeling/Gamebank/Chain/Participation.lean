import Gamebank.Chain.Slots

/-!
# Participation

`recent_slots_filled` and `participation_count` of
`dynamic_global_property_object`, which `update_global_dynamic_data` writes
for every block: bit 0 is the slot before the head's, bit 127 the oldest. The
loop shifts in the slot of the old head first, then the missed slots after it,
and the count loses the bit that is shifted out. `Window` says what the bits
mean; every block keeps it.
-/

namespace Gamebank.Chain

universe u v w

/-- The two fields. -/
structure SlotRecord where
  recentSlotsFilled : BitVec 128
  participationCount : UInt8

namespace SlotRecord

/-- As `init_genesis` creates them. -/
def genesis : SlotRecord := ⟨BitVec.allOnes 128, 128⟩

/-- One turn of the loop. -/
def fillSlot (r : SlotRecord) (first : Bool) : SlotRecord where
  recentSlotsFilled := (r.recentSlotsFilled <<< 1) + if first then 1#128 else 0#128
  participationCount :=
    (r.participationCount - if r.recentSlotsFilled.msb then 1 else 0) + if first then 1 else 0

/-- The loop over the missed slots and the block. -/
def update (r : SlotRecord) (missedBlocks : Nat) : SlotRecord :=
  (List.range (missedBlocks + 1)).foldl (fun r i => r.fillSlot (i = 0)) r

/-- The number of one bits. -/
def ones (r : SlotRecord) : Nat := (List.range 128).countP r.recentSlotsFilled.getLsbD

/-! ## Bits -/

variable {r : SlotRecord}

theorem shiftLeft_add_one (x : BitVec 128) : (x <<< 1) + 1#128 = (x <<< 1) ||| 1#128 := by
  refine BitVec.add_eq_or_of_and_eq_zero _ _ ?_
  ext i hi
  by_cases h0 : i = 0
  · simp [h0]
  · simp [h0]

/-- The bits move up by one, and the new slot is bit 0. -/
theorem getLsbD_fillSlot (r : SlotRecord) (first : Bool) {i : Nat} (hi : i < 128) :
    (r.fillSlot first).recentSlotsFilled.getLsbD i =
      if i = 0 then first else r.recentSlotsFilled.getLsbD (i - 1) := by
  have hshift : (r.recentSlotsFilled <<< 1).getLsbD i =
      if i = 0 then false else r.recentSlotsFilled.getLsbD (i - 1) := by
    rw [BitVec.getLsbD_shiftLeft]
    by_cases h0 : i = 0
    · simp [h0]
    · have h1 : ¬i < 1 := by omega
      simp only [hi, h0, h1, decide_true, decide_false, Bool.not_false, Bool.true_and, if_false]
  cases first with
  | true =>
      show ((r.recentSlotsFilled <<< 1) + 1#128).getLsbD i = _
      rw [shiftLeft_add_one, BitVec.getLsbD_or, hshift]
      by_cases h0 : i = 0
      · simp [h0]
      · have hone : (1#128).getLsbD i = false := by
          rw [BitVec.getLsbD_one]
          simp [h0]
        rw [hone, if_neg h0, if_neg h0, Bool.or_false]
  | false =>
      show ((r.recentSlotsFilled <<< 1) + 0#128).getLsbD i = _
      rw [BitVec.add_zero, hshift]

/-- What is counted loses the last place and gains the first. -/
theorem countP_range_shift {p q : Nat → Bool} {n : Nat}
    (hq : ∀ i < n + 1, q i = if i = 0 then q 0 else p (i - 1)) :
    (List.range (n + 1)).countP q + (if p n then 1 else 0) =
      (List.range (n + 1)).countP p + if q 0 then 1 else 0 := by
  have hrest : (List.range n).countP (q ∘ Nat.succ) = (List.range n).countP p := by
    refine List.countP_congr fun i hi => ?_
    rw [List.mem_range] at hi
    have := hq (i + 1) (by omega)
    simp only [Function.comp, Nat.succ_eq_add_one, this]
    simp
  rw [List.range_succ_eq_map, List.countP_cons, List.countP_map, hrest,
    ← List.range_succ_eq_map, List.range_succ, List.countP_append, List.countP_singleton]
  omega

theorem ones_le (r : SlotRecord) : r.ones ≤ 128 := by
  have := List.countP_le_length (p := r.recentSlotsFilled.getLsbD) (l := List.range 128)
  simpa [ones] using this

/-- One turn of the loop keeps the count. -/
theorem fillSlot_counts (h : r.participationCount.toNat = r.ones) (first : Bool) :
    (r.fillSlot first).participationCount.toNat = (r.fillSlot first).ones := by
  have hshift := countP_range_shift (p := r.recentSlotsFilled.getLsbD)
    (q := (r.fillSlot first).recentSlotsFilled.getLsbD) (n := 127) fun i hi => by
      rw [getLsbD_fillSlot r first hi, getLsbD_fillSlot r first (by decide : 0 < 128), if_pos rfl]
  have hfirst := getLsbD_fillSlot r first (by decide : 0 < 128)
  have hmsb : r.recentSlotsFilled.msb = r.recentSlotsFilled.getLsbD 127 := by
    rw [BitVec.msb_eq_getLsbD_last]
  have hle := r.ones_le
  have hle' := (r.fillSlot first).ones_le
  rw [if_pos rfl] at hfirst
  rw [hfirst] at hshift
  change (r.fillSlot first).ones + _ = r.ones + _ at hshift
  rw [← h] at hshift hle
  show ((r.participationCount - if r.recentSlotsFilled.msb then 1 else 0) +
    if first then 1 else 0 : UInt8).toNat = _
  rw [hmsb]
  -- a last bit that is lost was counted, so nothing wraps around
  cases hlast : r.recentSlotsFilled.getLsbD 127 with
  | false =>
      rw [hlast] at hshift
      cases first <;> simp [UInt8.toNat_add] at hshift ⊢ <;> omega
  | true =>
      rw [hlast] at hshift
      have hone : (1 : UInt8).toNat = 1 := rfl
      cases first <;> simp [UInt8.toNat_sub] at hshift ⊢ <;> omega

/-- The loop shifts in one slot with a block, then the missed slots. -/
theorem update_succ (r : SlotRecord) (missedBlocks : Nat) :
    r.update (missedBlocks + 1) = (r.update missedBlocks).fillSlot false := by
  unfold update
  rw [List.range_succ, List.foldl_append]
  rfl

theorem update_counts (h : r.participationCount.toNat = r.ones) (missedBlocks : Nat) :
    (r.update missedBlocks).participationCount.toNat = (r.update missedBlocks).ones := by
  induction missedBlocks with
  | zero => exact fillSlot_counts h true
  | succ n ih =>
      rw [update_succ]
      exact fillSlot_counts ih false

/-- What the loop leaves in the bits: the missed slots, the old head's, and
then what was there. -/
theorem getLsbD_update (r : SlotRecord) (missedBlocks : Nat) {i : Nat} (hi : i < 128) :
    (r.update missedBlocks).recentSlotsFilled.getLsbD i =
      if i < missedBlocks then false
      else if i = missedBlocks then true
      else r.recentSlotsFilled.getLsbD (i - (missedBlocks + 1)) := by
  induction missedBlocks generalizing i with
  | zero =>
      have hfill := getLsbD_fillSlot r true hi
      show (r.fillSlot true).recentSlotsFilled.getLsbD i = _
      simpa using hfill
  | succ n ih =>
      rw [update_succ, getLsbD_fillSlot _ _ hi]
      by_cases h0 : i = 0
      · simp [h0]
      · rw [if_neg h0, ih (by omega)]
        have hlt : i - 1 < n ↔ i < n + 1 := by omega
        have heq : i - 1 = n ↔ i = n + 1 := by omega
        have hsub : i - 1 - (n + 1) = i - (n + 1 + 1) := by omega
        simp only [hlt, heq, hsub]

/-! ## The window -/

/-- The bits are the 128 slots before the head's slot, which is filled, as are
no later ones. -/
structure Window (filled : Nat → Bool) (slot : Nat) (r : SlotRecord) : Prop where
  bits : ∀ i < 128, r.recentSlotsFilled.getLsbD i = filled (slot - (i + 1))
  counts : r.participationCount.toNat = r.ones
  head : filled slot = true
  later : ∀ n, slot < n → filled n = false

theorem window_genesis (slot : Nat) : Window (fun n => n ≤ slot) slot genesis where
  bits i hi := by
    have hle : slot - (i + 1) ≤ slot := Nat.sub_le _ _
    rw [genesis, BitVec.getLsbD_allOnes]
    simp [hi, hle]
  counts := by
    have hall : ∀ i ∈ List.range 128, (BitVec.allOnes 128).getLsbD i = true := by
      intro i hi
      rw [BitVec.getLsbD_allOnes]
      simpa using hi
    rw [ones, genesis, List.countP_eq_length.mpr hall, List.length_range]
    rfl
  head := by simp
  later n hn := by simp [hn]

/-- A block in a later slot. -/
theorem Window.block {filled : Nat → Bool} {slot next : Nat} (h : Window filled slot r)
    (hnext : slot < next) (hdeep : 128 ≤ slot) :
    Window (fun n => filled n || n = next) next (r.update (next - slot - 1)) where
  bits i hi := by
    rw [getLsbD_update r _ hi]
    have hne : next - (i + 1) ≠ next := by omega
    by_cases hmissed : i < next - slot - 1
    · rw [if_pos hmissed, h.later _ (by omega)]
      simp [hne]
    · rw [if_neg hmissed]
      by_cases hhead : i = next - slot - 1
      · have hslot : next - (i + 1) = slot := by omega
        rw [if_pos hhead, hslot, h.head]
        rfl
      · rw [if_neg hhead, h.bits _ (by omega)]
        have hslot : slot - (i - (next - slot - 1 + 1) + 1) = next - (i + 1) := by omega
        simp [hslot, hne]
  counts := update_counts h.counts _
  head := by simp
  later n hn := by
    have hne : n ≠ next := by omega
    simp [h.later n (by omega), hne]

/-- The number of slots with a block among the 128 before `slot`. -/
def filledBefore (filled : Nat → Bool) (slot : Nat) : Nat :=
  (List.range 128).countP fun i => filled (slot - (i + 1))

theorem Window.ones_eq {filled : Nat → Bool} {slot : Nat} (h : Window filled slot r) :
    r.ones = filledBefore filled slot := by
  refine List.countP_congr fun i hi => ?_
  rw [h.bits i (List.mem_range.mp hi)]

end SlotRecord

/-! ## Chains from genesis -/

section Chains

variable {Name : Type u} {Tx : Type v} {Rest : Type w} [DecidableEq Name]

/-- The genesis state, of the test network or of the live one. -/
structure Objects.AtGenesis (o : Objects Name Rest) : Prop where
  headBlockNumber : o.headBlockNumber = 0
  time : o.time = 1451606400 ∨ o.time = 1458835200

/-- The record after the blocks of a chain that starts at `o`. -/
def recordAfter (o : Objects Name Rest) (r : SlotRecord) :
    List (SignedBlock Name Tx × Objects Name Rest) → SlotRecord
  | [] => r
  | e :: rest => recordAfter e.2 (r.update (o.missedBlocks e.1)) rest

/-- The objects after the blocks. -/
def headAfter (o : Objects Name Rest) :
    List (SignedBlock Name Tx × Objects Name Rest) → Objects Name Rest
  | [] => o
  | e :: rest => headAfter e.2 rest

/-- A slot up to the one of genesis, or with a block of the chain. -/
def slotFilled (g : Objects Name Rest) (chain : List (SignedBlock Name Tx × Objects Name Rest))
    (slot : Nat) : Bool :=
  slot ≤ g.time / blockInterval || chain.any fun e => slot = e.1.timestamp / blockInterval

/-- The slots an accepted block is ahead of the head, also of genesis: its time
is a multiple of three. -/
theorem Objects.Moves.missedBlocks_eq {ev : Evaluators Name Tx Rest} {o o' : Objects Name Rest}
    {b : SignedBlock Name Tx} (h : Moves ev o b o')
    (hhead : 1 ≤ o.headBlockNumber ∨ o.time % blockInterval = 0) (htime : o.time ≠ 0)
    (hb : b.timestamp < uint32Size) :
    o.time / blockInterval < b.timestamp / blockInterval ∧
      o.missedBlocks b = b.timestamp / blockInterval - o.time / blockInterval - 1 := by
  have hafter := h.later
  have hslot : 0 < o.getSlotAtTime b.timestamp := (slot_of_validateBlockHeader h.valid).1
  have hone : o.getSlotTime 1 = o.time / blockInterval * blockInterval + blockInterval := by
    rcases hhead with hhead | haligned
    · exact getSlotTime_one hhead (by omega)
    · unfold getSlotTime
      by_cases hzero : o.headBlockNumber = 0
      · rw [if_neg (by decide), if_pos hzero]
        simp only [uint32Size, blockInterval] at *
        omega
      · rw [if_neg (by decide), if_neg hzero]
        simp only [uint32Size, blockInterval] at *
        omega
  have hfirst : o.getSlotTime 1 ≤ b.timestamp := by
    by_contra hlt
    rw [getSlotAtTime, if_pos (by omega)] at hslot
    omega
  rw [missedBlocks, if_pos htime, getSlotAtTime, if_neg (by omega)]
  rw [hone] at *
  simp only [blockInterval] at *
  omega

/-- The window follows the chain. -/
theorem window_after {ev : Evaluators Name Tx Rest} {o : Objects Name Rest} {r : SlotRecord}
    {filled : Nat → Bool} {chain : List (SignedBlock Name Tx × Objects Name Rest)}
    (hchain : Objects.Accepted ev o chain) (hb : ∀ e ∈ chain, e.1.timestamp < uint32Size)
    (hhead : 1 ≤ o.headBlockNumber ∨ o.time % blockInterval = 0)
    (hdeep : 128 ≤ o.time / blockInterval)
    (hr : SlotRecord.Window filled (o.time / blockInterval) r) :
    SlotRecord.Window
      (fun n => filled n || chain.any fun e => n = e.1.timestamp / blockInterval)
      ((headAfter o chain).time / blockInterval) (recordAfter o r chain) := by
  induction chain generalizing o r filled with
  | nil => simpa [headAfter, recordAfter] using hr
  | cons e rest ih =>
      obtain ⟨hstep, hrest⟩ := hchain
      have hmoves := Objects.afterBlock_moves hstep
      have htime : o.time ≠ 0 := by
        intro h0
        rw [h0] at hdeep
        exact absurd hdeep (by decide)
      obtain ⟨hlt, hmissed⟩ :=
        hmoves.missedBlocks_eq hhead htime (hb e List.mem_cons_self)
      have hnext := hr.block hlt hdeep
      rw [← hmissed, ← hmoves.time] at hnext
      have hblock := hmoves.headBlockNumber
      rw [SignedBlock.blockNum] at hblock
      have hafter := ih hrest (fun e' he' => hb e' (List.mem_cons_of_mem e he'))
        (.inl (by omega)) (by rw [hmoves.time]; omega) hnext
      simpa only [List.any_cons, Bool.or_assoc, hmoves.time, headAfter, recordAfter] using hafter

/-- **Participation**: after every chain of blocks from genesis, with any gaps
between them, the count is the number of one bits; bit `i` is set if and only
if there is a block in the slot `i + 1` before the head's; and the count is
the number of those slots among the last 128. -/
theorem participation_counted (ev : Evaluators Name Tx Rest) (g : Objects Name Rest)
    (hg : g.AtGenesis) (chain : List (SignedBlock Name Tx × Objects Name Rest))
    (hb : ∀ e ∈ chain, e.1.timestamp < uint32Size) (hchain : Objects.Accepted ev g chain) :
    (recordAfter g .genesis chain).participationCount.toNat = (recordAfter g .genesis chain).ones ∧
    (recordAfter g .genesis chain).ones =
      SlotRecord.filledBefore (slotFilled g chain) ((headAfter g chain).time / blockInterval) ∧
    (∀ i < 128, (recordAfter g .genesis chain).recentSlotsFilled.getLsbD i =
      slotFilled g chain ((headAfter g chain).time / blockInterval - (i + 1))) ∧
    (recordAfter g .genesis chain).participationCount.toNat ≤ 128 := by
  have haligned : g.time % blockInterval = 0 ∧ 128 ≤ g.time / blockInterval := by
    rcases hg.time with h | h <;> rw [h] <;> decide
  have hwindow := window_after hchain hb (.inr haligned.1) haligned.2
    (SlotRecord.window_genesis (g.time / blockInterval))
  refine ⟨hwindow.counts, hwindow.ones_eq, hwindow.bits, ?_⟩
  rw [hwindow.counts]
  exact SlotRecord.ones_le _

end Chains

/-! ### A gap of two slots -/

theorem participation_counted_gap :
    (recordAfter (startOfChain 0 1458835200) .genesis
      (acceptedChain (startOfChain 0 1458835200) gapBlocks)).participationCount.toNat = 126 ∧
    (recordAfter (startOfChain 0 1458835200) .genesis
      (acceptedChain (startOfChain 0 1458835200) gapBlocks)).ones = 126 := by
  have h := participation_counted (Objects.onSchedule emptyBlocks) (startOfChain 0 1458835200)
    ⟨rfl, .inr rfl⟩ (acceptedChain (startOfChain 0 1458835200) gapBlocks) (by decide +kernel)
    (acceptedChain_accepted _ _)
  have hcount : (recordAfter (startOfChain 0 1458835200) .genesis
      (acceptedChain (startOfChain 0 1458835200) gapBlocks)).participationCount.toNat = 126 := by
    decide +kernel
  exact ⟨hcount, h.1.symm.trans hcount⟩

end Gamebank.Chain
