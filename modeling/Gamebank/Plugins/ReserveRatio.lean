import Gamebank.Lib.Checked
import Mathlib.Algebra.Order.Ring.Int
import Mathlib.Data.Int.Lemmas
import Mathlib.Tactic.Linarith

/-!
# The reserve ratio

`on_post_apply_block` of `witness_plugin.cpp` keeps a running average of the
block sizes in 32 bits, and every 20 blocks moves the reserve ratio by the
distance of the average from a quarter of the maximum. Arithmetic on signed
numbers that leaves their range, and a division by zero, are errors here;
divisions truncate. What is exported and logged is left out.
-/

namespace Gamebank.Plugins

open Gamebank.Lib

/-! ## Constants -/

/-- `GAMEBANK_MIN_BLOCK_SIZE_LIMIT`. -/
def minBlockSizeLimit : Nat := 65536

/-- `GAMEBANK_MAX_BLOCK_SIZE`. -/
def maxBlockSize : Nat := 393216000

/-- `GAMEBANK_MAX_RESERVE_RATIO`. -/
def maxReserveRatio : Int := 20000

/-- `RESERVE_RATIO_PRECISION`. -/
def reserveRatioPrecision : Int := 10000

/-- `RESERVE_RATIO_MIN_INCREMENT`. -/
def reserveRatioMinIncrement : Int := 5000

/-- `DISTANCE_CALC_PRECISION`. -/
def distanceCalcPrecision : Int := 10000

/-- `GAMEBANK_BANDWIDTH_PRECISION * GAMEBANK_BANDWIDTH_AVERAGE_WINDOW_SECONDS`. -/
def bandwidthWindow : Int := 1000000 * 604800

/-- `GAMEBANK_BLOCK_INTERVAL`. -/
def blockInterval : Int := 3

/-! ## Signed numbers -/

/-- An `int32_t` result. -/
def int32 (n : Int) : Except String Int :=
  if -2147483648 ≤ n ∧ n < 2147483648 then .ok n else .error "signed overflow"

/-- An `int64_t` result. -/
def int64 (n : Int) : Except String Int :=
  if -9223372036854775808 ≤ n ∧ n < 9223372036854775808 then .ok n else .error "signed overflow"

/-- The division of C++. -/
def divide (a b : Int) : Except String Int :=
  if b = 0 then .error "division by zero" else .ok (a.tdiv b)

/-! ## The handler -/

/-- `reserve_ratio_object`. -/
structure ReserveRatio where
  averageBlockSize : Int
  currentReserveRatio : Int
  maxVirtualBandwidth : Int
deriving DecidableEq

/-- A block that was applied: its size, the `maximum_block_size` it was checked
against, and the properties after it. -/
structure AppliedBlock where
  packSize : Nat
  sizeLimit : Nat
  maximumBlockSize : Nat
  headBlockNum : Nat

/-- The block is not too big, for limits in the allowed range. -/
structure AppliedBlock.Valid (b : AppliedBlock) : Prop where
  checked : b.packSize ≤ b.sizeLimit
  sizeLimit : minBlockSizeLimit ≤ b.sizeLimit ∧ b.sizeLimit ≤ maxBlockSize
  maximumBlockSize : minBlockSizeLimit ≤ b.maximumBlockSize ∧ b.maximumBlockSize ≤ maxBlockSize

namespace ReserveRatio

/-- As the first block creates it. -/
def initial : ReserveRatio where
  averageBlockSize := 0
  currentReserveRatio := maxReserveRatio * reserveRatioPrecision
  maxVirtualBandwidth := maxBlockSize * maxReserveRatio * bandwidthWindow / blockInterval

/-- `average_block_size`. -/
def nextAverage (average blockSize : Int) : Except String Int := do
  let weighted ← int32 (99 * average)
  let sum ← int32 (weighted + blockSize)
  divide sum 100

/-- `distance`. -/
def distanceOf (average maxBlockSize : Int) : Except String Int := do
  let quarter ← divide maxBlockSize 4
  let difference ← int64 (average - quarter)
  let scaled ← int64 (difference * distanceCalcPrecision)
  divide scaled quarter

/-- `current_reserve_ratio`. -/
def nextRatio (ratio distance : Int) : Except String Int := do
  let product ← int64 (ratio * distance)
  if 0 < distance then
    let divisor ← int64 (distance + distanceCalcPrecision)
    let decrease ← divide product divisor
    let ratio ← int64 (ratio - decrease)
    return if ratio < reserveRatioPrecision then reserveRatioPrecision else ratio
  else
    let divisor ← int64 (distance - distanceCalcPrecision)
    let increase ← divide product divisor
    let ratio ← int64 (ratio + max reserveRatioMinIncrement increase)
    return if maxReserveRatio * reserveRatioPrecision < ratio then
      maxReserveRatio * reserveRatioPrecision else ratio

/-- `max_virtual_bandwidth`; a `uint128_t`. -/
def virtualBandwidth (maxBlockSize ratio : Int) : Int :=
  maxBlockSize * ratio * bandwidthWindow % 340282366920938463463374607431768211456 /
    (blockInterval * reserveRatioPrecision)

/-- The `modify` of an object that exists. -/
def update (r : ReserveRatio) (b : AppliedBlock) : Except String ReserveRatio := do
  let average ← nextAverage r.averageBlockSize b.packSize
  if b.headBlockNum % 20 = 0 then
    let distance ← distanceOf average b.maximumBlockSize
    let ratio ← nextRatio r.currentReserveRatio distance
    return ⟨average, ratio, virtualBandwidth b.maximumBlockSize ratio⟩
  else
    return { r with averageBlockSize := average }

end ReserveRatio

/-- `on_post_apply_block`. -/
def onPostApplyBlock (r : Option ReserveRatio) (b : AppliedBlock) : Except String ReserveRatio :=
  match r with
  | none => .ok .initial
  | some r => r.update b

/-- The handler after one block after the other. -/
def afterBlocks (r : Option ReserveRatio) : List AppliedBlock → Except String (Option ReserveRatio)
  | [] => .ok r
  | b :: rest => do
      let r ← onPostApplyBlock r b
      afterBlocks (some r) rest

/-! ## Arithmetic -/

theorem int32_eq_ok {n m : Int} :
    int32 n = .ok m ↔ (-2147483648 ≤ n ∧ n < 2147483648) ∧ n = m := by
  unfold int32
  by_cases h : -2147483648 ≤ n ∧ n < 2147483648
  · simp [h]
  · simp [h]

theorem int64_of_fits {n : Int} (hlow : -9223372036854775808 ≤ n)
    (hhigh : n < 9223372036854775808) : int64 n = .ok n := by
  rw [int64, if_pos ⟨hlow, hhigh⟩]

theorem ok_bind {a : Int} {α : Type} (f : Int → Except String α) : (Except.ok a >>= f) = f a := rfl

theorem divide_of_ne_zero {a b : Int} (h : b ≠ 0) : divide a b = .ok (a.tdiv b) := by
  rw [divide, if_neg h]

namespace ReserveRatio

/-- The average of sizes below a bound is below it. -/
theorem nextAverage_eq_ok {average size : Int} (ha : 0 ≤ average) (hs : 0 ≤ size) {next : Int} :
    nextAverage average size = .ok next ↔
      99 * average + size < 2147483648 ∧ next = (99 * average + size) / 100 := by
  unfold nextAverage
  simp only [bind_eq_ok, int32_eq_ok]
  constructor
  · rintro ⟨_, ⟨_, rfl⟩, _, ⟨⟨_, hlt⟩, rfl⟩, hdiv⟩
    rw [divide_of_ne_zero (by omega), Int.tdiv_eq_ediv_of_nonneg (by omega)] at hdiv
    exact ⟨hlt, (Except.ok.inj hdiv).symm⟩
  · rintro ⟨hlt, rfl⟩
    refine ⟨_, ⟨⟨by omega, by omega⟩, rfl⟩, _, ⟨⟨by omega, hlt⟩, rfl⟩, ?_⟩
    rw [divide_of_ne_zero (by omega), Int.tdiv_eq_ediv_of_nonneg (by omega)]

/-- The distance is at least `-10000`, and no product with it overflows. -/
theorem distanceOf_spec {average size : Int} (ha : 0 ≤ average) (ha' : average ≤ maxBlockSize)
    (hmin : minBlockSizeLimit ≤ size) (hmax : size ≤ maxBlockSize) :
    ∃ d, distanceOf average size = .ok d ∧ -10000 ≤ d ∧ d ≤ 240000000 := by
  have hquarter : size.tdiv 4 = size / 4 := Int.tdiv_eq_ediv_of_nonneg (by omega)
  simp only [minBlockSizeLimit, maxBlockSize] at *
  unfold distanceOf distanceCalcPrecision
  rw [divide_of_ne_zero (by decide), hquarter]
  obtain ⟨q, hq⟩ : ∃ q, size / 4 = q := ⟨_, rfl⟩
  have hlow : 16384 ≤ q := by omega
  have hhigh : q ≤ 98304000 := by omega
  rw [hq]
  refine ⟨((average - q) * 10000).tdiv q, ?_, ?_, ?_⟩
  · rw [ok_bind, int64_of_fits (by omega) (by omega), ok_bind, int64_of_fits (by omega) (by omega),
      ok_bind, divide_of_ne_zero (by omega)]
  · -- the numerator is at least `-10000 * q`
    have hle : (-(10000 * q)).tdiv q ≤ ((average - q) * 10000).tdiv q :=
      Int.tdiv_le_tdiv (by omega) (by omega)
    rwa [Int.neg_tdiv, Int.mul_tdiv_cancel _ (by omega)] at hle
  · rcases Int.le_total 0 (average - q) with hpos | hneg
    · rw [Int.tdiv_eq_ediv_of_nonneg (by omega)]
      exact Int.ediv_le_of_le_mul (by omega) (by omega)
    · have hle : ((average - q) * 10000).tdiv q ≤ (0 : Int).tdiv q :=
        Int.tdiv_le_tdiv (by omega) (by omega)
      rw [Int.zero_tdiv] at hle
      omega

/-- The product of a ratio and a distance. -/
theorem int64_product {ratio d : Int} (hr : 0 ≤ ratio) (hr' : ratio ≤ 200000000)
    (hd : -10000 ≤ d) (hd' : d ≤ 240000000) : int64 (ratio * d) = .ok (ratio * d) := by
  have hhigh : ratio * d ≤ 200000000 * 240000000 := by
    rcases Int.le_total 0 d with hpos | hneg
    · exact mul_le_mul hr' hd' hpos (by decide)
    · exact (mul_nonpos_of_nonneg_of_nonpos hr hneg).trans (by decide)
  have hlow : 200000000 * -10000 ≤ ratio * d := by
    rcases Int.le_total 0 d with hpos | hneg
    · exact le_trans (by decide) (mul_nonneg hr hpos)
    · nlinarith
  exact int64_of_fits (by omega) (by omega)

/-- A ratio in its range moves to one in its range. -/
theorem nextRatio_spec {ratio d : Int} (hr : 10000 ≤ ratio) (hr' : ratio ≤ 200000000)
    (hd : -10000 ≤ d) (hd' : d ≤ 240000000) :
    ∃ next, nextRatio ratio d = .ok next ∧ 10000 ≤ next ∧ next ≤ 200000000 := by
  unfold nextRatio distanceCalcPrecision reserveRatioPrecision maxReserveRatio
    reserveRatioMinIncrement
  rw [int64_product (by omega) hr' hd hd']
  by_cases hpos : 0 < d
  · -- above a quarter: the ratio loses a part of itself
    have hnonneg : 0 ≤ ratio * d := mul_nonneg (by omega) hpos.le
    have hle : ratio * d / (d + 10000) ≤ ratio := by
      refine Int.ediv_le_of_le_mul (by omega) ?_
      exact mul_le_mul_of_nonneg_left (by omega) (by omega)
    have hge : 0 ≤ ratio * d / (d + 10000) := Int.ediv_nonneg hnonneg (by omega)
    have hdecrease : divide (ratio * d) (d + 10000) = .ok (ratio * d / (d + 10000)) := by
      rw [divide_of_ne_zero (by omega), Int.tdiv_eq_ediv_of_nonneg hnonneg]
    generalize ratio * d / (d + 10000) = decrease at *
    refine ⟨if ratio - decrease < 10000 then 10000 else ratio - decrease, ?_, ?_, ?_⟩
    · simp only [ok_bind, hpos, if_true, int64_of_fits (n := d + 10000) (by omega) (by omega),
        hdecrease, int64_of_fits (n := ratio - decrease) (by omega) (by omega)]
      rfl
    · split <;> omega
    · split <;> omega
  · -- at or below a quarter: both factors of the quotient are not positive
    have hquotient : (ratio * d).tdiv (d - 10000) = ratio * -d / (10000 - d) := by
      rw [← Int.neg_tdiv_neg, ← mul_neg, Int.neg_sub,
        Int.tdiv_eq_ediv_of_nonneg (mul_nonneg (by omega) (by omega))]
    have hle : ratio * -d / (10000 - d) ≤ ratio := by
      refine Int.ediv_le_of_le_mul (by omega) ?_
      exact mul_le_mul_of_nonneg_left (by omega) (by omega)
    have hincrease : divide (ratio * d) (d - 10000) = .ok (ratio * -d / (10000 - d)) := by
      rw [divide_of_ne_zero (by omega), hquotient]
    generalize ratio * -d / (10000 - d) = increase at *
    refine ⟨if 20000 * 10000 < ratio + max 5000 increase then 20000 * 10000
      else ratio + max 5000 increase, ?_, ?_, ?_⟩
    · simp only [ok_bind, hpos, if_false, int64_of_fits (n := d - 10000) (by omega) (by omega),
        hincrease, int64_of_fits (n := ratio + max 5000 increase) (by omega) (by omega)]
      rfl
    · split <;> omega
    · split <;> omega

/-- The handler's object is in its bounds, for blocks of at most `largest` bytes. -/
structure Bounded (largest : Nat) (r : ReserveRatio) : Prop where
  average : 0 ≤ r.averageBlockSize ∧ r.averageBlockSize ≤ largest
  ratio : reserveRatioPrecision ≤ r.currentReserveRatio ∧
    r.currentReserveRatio ≤ maxReserveRatio * reserveRatioPrecision

theorem initial_bounded (largest : Nat) : Bounded largest initial where
  average := ⟨Int.le_refl 0, Int.natCast_nonneg largest⟩
  ratio := by decide

/-- A block whose weighted average fits in 32 bits. -/
theorem update_of_fits {r : ReserveRatio} {b : AppliedBlock} {largest : Nat} (h : Bounded largest r)
    (hb : b.Valid) (hsize : b.packSize ≤ largest) (hlargest : largest ≤ maxBlockSize)
    (hfits : 99 * r.averageBlockSize + b.packSize < 2147483648) :
    ∃ r', r.update b = .ok r' ∧ Bounded largest r' ∧
      r'.averageBlockSize = (99 * r.averageBlockSize + b.packSize) / 100 := by
  obtain ⟨hlow, hhigh⟩ := h.average
  obtain ⟨average, haverage⟩ : ∃ average, (99 * r.averageBlockSize + b.packSize) / 100 = average :=
    ⟨_, rfl⟩
  have hnext : nextAverage r.averageBlockSize b.packSize = .ok average :=
    (nextAverage_eq_ok hlow (Int.natCast_nonneg _)).mpr ⟨hfits, haverage.symm⟩
  have hwithin : 0 ≤ average ∧ average ≤ largest := by omega
  unfold update
  rw [hnext, haverage, ok_bind]
  by_cases hturn : b.headBlockNum % 20 = 0
  · obtain ⟨hmin, hmax⟩ := hb.maximumBlockSize
    obtain ⟨d, hd, hdlow, hdhigh⟩ : ∃ d, distanceOf average b.maximumBlockSize = .ok d ∧
        -10000 ≤ d ∧ d ≤ 240000000 :=
      distanceOf_spec hwithin.1 (by omega) (by omega) (by omega)
    obtain ⟨ratio, hratio, hrlow, hrhigh⟩ := nextRatio_spec h.ratio.1 h.ratio.2 hdlow hdhigh
    refine ⟨⟨average, ratio, virtualBandwidth b.maximumBlockSize ratio⟩, ?_,
      ⟨hwithin, hrlow, hrhigh⟩, rfl⟩
    rw [if_pos hturn, hd, ok_bind, hratio, ok_bind]
    rfl
  · refine ⟨{ r with averageBlockSize := average }, ?_, ⟨hwithin, h.ratio⟩, rfl⟩
    rw [if_neg hturn]
    rfl

theorem fits_of_update {r r' : ReserveRatio} {b : AppliedBlock} (haverage : 0 ≤ r.averageBlockSize)
    (h : r.update b = .ok r') : 99 * r.averageBlockSize + b.packSize < 2147483648 := by
  unfold update at h
  obtain ⟨average, hnext, -⟩ := bind_eq_ok.mp h
  exact ((nextAverage_eq_ok haverage (Int.natCast_nonneg _)).mp hnext).1

end ReserveRatio

/-! ## Runs -/

/-- For these block sizes the weighted average fits in 32 bits at every block. -/
def AverageFits : Int → List Nat → Prop
  | _, [] => True
  | average, size :: rest =>
      99 * average + size < 2147483648 ∧ AverageFits ((99 * average + size) / 100) rest

/-- No average of blocks of 21 MB leaves 32 bits. -/
theorem averageFits_of_small {average : Int} (ha : 0 ≤ average) (ha' : average ≤ 21474836)
    {sizes : List Nat} (h : ∀ size ∈ sizes, size ≤ 21474836) : AverageFits average sizes := by
  induction sizes generalizing average with
  | nil => trivial
  | cons size rest ih =>
      have hsize := h size List.mem_cons_self
      refine ⟨by omega, ih (by omega) (by omega) ?_⟩
      intro s hs
      exact h s (List.mem_cons_of_mem size hs)

/-- The largest block. -/
def largestBlock (blocks : List AppliedBlock) : Nat :=
  (blocks.map AppliedBlock.packSize).foldr max 0

theorem le_largestBlock {b : AppliedBlock} {blocks : List AppliedBlock} (h : b ∈ blocks) :
    b.packSize ≤ largestBlock blocks := by
  induction blocks with
  | nil => cases h
  | cons c rest ih =>
      rcases List.mem_cons.mp h with rfl | h
      · exact Nat.le_max_left _ _
      · exact (ih h).trans (Nat.le_max_right _ _)

theorem largestBlock_le {blocks : List AppliedBlock} (h : ∀ b ∈ blocks, b.Valid) :
    largestBlock blocks ≤ maxBlockSize := by
  induction blocks with
  | nil => exact Nat.zero_le _
  | cons c rest ih =>
      have hc := h c List.mem_cons_self
      refine Nat.max_le.mpr ⟨hc.checked.trans hc.sizeLimit.2, ih ?_⟩
      intro b hb
      exact h b (List.mem_cons_of_mem c hb)

theorem averageFits_of_prefix {average : Int} {sizes rest : List Nat}
    (h : AverageFits average (sizes ++ rest)) : AverageFits average sizes := by
  induction sizes generalizing average with
  | nil => trivial
  | cons size sizes ih => exact ⟨h.1, ih h.2⟩

/-- A run from an object in its bounds. -/
theorem afterBlocks_some {r : ReserveRatio} {blocks : List AppliedBlock} {largest : Nat}
    (h : r.Bounded largest) (hlargest : largest ≤ maxBlockSize)
    (hblocks : ∀ b ∈ blocks, b.Valid ∧ b.packSize ≤ largest) :
    (∃ o, afterBlocks (some r) blocks = .ok o ∧ ∀ x ∈ o, x.Bounded largest) ↔
      AverageFits r.averageBlockSize (blocks.map AppliedBlock.packSize) := by
  induction blocks generalizing r with
  | nil => exact ⟨fun _ => trivial, fun _ => ⟨some r, rfl, by simpa using h⟩⟩
  | cons b rest ih =>
      obtain ⟨hb, hsize⟩ := hblocks b List.mem_cons_self
      have hrest := fun c hc => hblocks c (List.mem_cons_of_mem b hc)
      constructor
      · rintro ⟨o, hrun, hbounded⟩
        obtain ⟨r₁, hstep, hrun⟩ := bind_eq_ok.mp hrun
        have hfits := ReserveRatio.fits_of_update h.average.1 hstep
        obtain ⟨r₂, hstep₂, h₂, haverage⟩ := ReserveRatio.update_of_fits h hb hsize hlargest hfits
        obtain rfl : r₂ = r₁ := Except.ok.inj (hstep₂.symm.trans hstep)
        have hnext := (ih h₂ hrest).mp ⟨o, hrun, hbounded⟩
        rw [haverage] at hnext
        exact ⟨hfits, hnext⟩
      · rintro ⟨hfits, hnext⟩
        obtain ⟨r₁, hstep, h₁, haverage⟩ := ReserveRatio.update_of_fits h hb hsize hlargest hfits
        rw [← haverage] at hnext
        obtain ⟨o, hrun, hbounded⟩ := (ih h₁ hrest).mpr hnext
        exact ⟨o, bind_eq_ok.mpr ⟨r₁, hstep, hrun⟩, hbounded⟩

/-- A run from the first block of a node on. -/
theorem afterBlocks_none {blocks : List AppliedBlock} (h : ∀ b ∈ blocks, b.Valid) :
    (∃ o, afterBlocks none blocks = .ok o ∧ ∀ x ∈ o, x.Bounded (largestBlock blocks)) ↔
      AverageFits 0 (blocks.tail.map AppliedBlock.packSize) := by
  cases blocks with
  | nil => exact ⟨fun _ => trivial, fun _ => ⟨none, rfl, by simp⟩⟩
  | cons b rest =>
      refine afterBlocks_some (ReserveRatio.initial_bounded _) (largestBlock_le h) ?_
      intro c hc
      have hmem := List.mem_cons_of_mem b hc
      exact ⟨h c hmem, le_largestBlock hmem⟩

/-- **The reserve ratio**: a run of the handler over blocks that are not too big
overflows nothing, divides by no zero and keeps its bounds if and only if the
weighted average of their sizes fits in 32 bits at every block after the first. -/
theorem reserve_ratio_bounded_iff (blocks : List AppliedBlock) (h : ∀ b ∈ blocks, b.Valid) :
    (∀ front, front <+: blocks → ∃ o, afterBlocks none front = .ok o ∧
      ∀ x ∈ o, x.Bounded (largestBlock front)) ↔
      AverageFits 0 (blocks.tail.map AppliedBlock.packSize) := by
  constructor
  · intro hrun
    exact (afterBlocks_none h).mp (hrun blocks List.prefix_rfl)
  · rintro hfits front ⟨rest, rfl⟩
    have hvalid : ∀ b ∈ front, b.Valid := fun b hb => h b (List.mem_append_left rest hb)
    refine (afterBlocks_none hvalid).mpr ?_
    cases front with
    | nil => trivial
    | cons b front =>
        rw [List.cons_append, List.tail_cons, List.map_append] at hfits
        exact averageFits_of_prefix hfits

/-! ### Blocks of two megabytes, and of the maximum size -/

/-- Blocks 1 to `last`, with the limit at the size of the blocks. -/
def equalBlocks (size last : Nat) : List AppliedBlock :=
  (List.range' 1 last).map fun n => ⟨size, size, size, n⟩

theorem equalBlocks_valid {size last : Nat} (hmin : minBlockSizeLimit ≤ size)
    (hmax : size ≤ maxBlockSize) : ∀ b ∈ equalBlocks size last, b.Valid := by
  intro b hb
  obtain ⟨n, -, rfl⟩ := List.mem_map.mp hb
  exact ⟨Nat.le_refl size, ⟨hmin, hmax⟩, hmin, hmax⟩

theorem reserve_ratio_bounded_iff_soft_limit :
    ∃ o, afterBlocks none (equalBlocks 2097152 80) = .ok o ∧
      ∀ x ∈ o, x.Bounded (largestBlock (equalBlocks 2097152 80)) := by
  have hiff := reserve_ratio_bounded_iff (equalBlocks 2097152 80)
    (equalBlocks_valid (by decide) (by decide))
  refine hiff.mpr (averageFits_of_small (by decide) (by decide) ?_) _ List.prefix_rfl
  intro size hsize
  obtain ⟨b, hb, rfl⟩ := List.mem_map.mp hsize
  obtain ⟨n, -, rfl⟩ := List.mem_map.mp (List.mem_of_mem_tail hb)
  exact (by decide : 2097152 ≤ 21474836)

/-- The seventh block of the maximum size overflows the average. -/
theorem huge_blocks_overflow :
    (∀ b ∈ equalBlocks 393216000 7, b.Valid) ∧
    afterBlocks none (equalBlocks 393216000 7) = .error "signed overflow" :=
  ⟨equalBlocks_valid (by decide) (by decide), by decide +kernel⟩

end Gamebank.Plugins
