import Mathlib.Algebra.Order.Field.Rat
import Mathlib.Data.Prod.Lex
import Mathlib.Data.Rat.Defs
import Mathlib.Tactic.Linarith
import Gamebank.Lib.WeakOrder
import Gamebank.Protocol.ExactProducts
import Gamebank.Protocol.WideNumbers

/-!
# Prices of any symbols in order

The six comparison operators, `~`, `price::min` and `price::max`. Prices with
other symbols are compared by their symbols, those with the same by two
products in 128 bits, which do not wrap. So a price stands where its symbols
and its rate stand (`place`).
-/

namespace Gamebank.Protocol

open Gamebank.Lib

/-! ## The comparison of `std::tie` -/

namespace Tie

/-- `operator <` of two symbols. -/
def symbolLt (a b : AssetSymbolType) : Bool := a.assetNum < b.assetNum

variable (a b : AssetSymbolType × AssetSymbolType)

def eq : Bool := a.1 = b.1 && a.2 = b.2

def lt : Bool := symbolLt a.1 b.1 || (!symbolLt b.1 a.1 && symbolLt a.2 b.2)

def ne : Bool := !eq a b

def gt : Bool := lt b a

def le : Bool := !lt b a

def ge : Bool := !lt a b

end Tie

/-! ## Prices -/

namespace SymbolPrice

/-- `BQ`. -/
def symbols (p : SymbolPrice) : AssetSymbolType × AssetSymbolType := (p.base.symbol, p.quote.symbol)

/-- `amult`; with the prices exchanged, `bmult`. -/
def cross (a b : SymbolPrice) : UInt128 :=
  (UInt128.ofInt64 b.quote.amount).mul (UInt128.ofInt64 a.base.amount)

/-- `DEFINE_PRICE_COMPARISON_OPERATOR`, with the operator on tuples and on numbers. -/
def compare
    (tie : AssetSymbolType × AssetSymbolType → AssetSymbolType × AssetSymbolType → Bool)
    (op : UInt128 → UInt128 → Bool) (a b : SymbolPrice) : Bool :=
  if Tie.ne a.symbols b.symbols then tie a.symbols b.symbols
  else op (a.cross b) (b.cross a)

/-- `operator ==`. -/
def eq : SymbolPrice → SymbolPrice → Bool := compare Tie.eq fun a b => a = b

/-- `operator !=`. -/
def ne : SymbolPrice → SymbolPrice → Bool := compare Tie.ne fun a b => a ≠ b

/-- `operator <`. -/
def lt : SymbolPrice → SymbolPrice → Bool := compare Tie.lt UInt128.lt

/-- `operator <=`. -/
def le : SymbolPrice → SymbolPrice → Bool := compare Tie.le UInt128.le

/-- `operator >`. -/
def gt : SymbolPrice → SymbolPrice → Bool := compare Tie.gt UInt128.gt

/-- `operator >=`. -/
def ge : SymbolPrice → SymbolPrice → Bool := compare Tie.ge UInt128.ge

/-- The constructor from two assets. -/
def make (base quote : SymbolAsset) : Except String SymbolPrice := do
  let p : SymbolPrice := ⟨base, quote⟩
  p.validate
  return p

/-- `operator ~`. -/
def inverse (p : SymbolPrice) : Except String SymbolPrice := make p.quote p.base

end SymbolPrice

/-- `operator /` of two assets. -/
def SymbolAsset.over (base quote : SymbolAsset) : Except String SymbolPrice := do
  ensure (base.symbol ≠ quote.symbol) "base.symbol != quote.symbol"
  SymbolPrice.make base quote

namespace SymbolPrice

/-- `price::max`. -/
def max (base quote : AssetSymbolType) : Except String SymbolPrice :=
  SymbolAsset.over ⟨Price.maxSatoshis, base⟩ ⟨1, quote⟩

/-- `price::min`. -/
def min (base quote : AssetSymbolType) : Except String SymbolPrice :=
  SymbolAsset.over ⟨1, base⟩ ⟨Price.maxSatoshis, quote⟩

/-- With positive amounts of type `int64_t`. -/
structure Positive (p : SymbolPrice) : Prop where
  base : 0 < p.base.amount ∧ p.base.amount < 9223372036854775808
  quote : 0 < p.quote.amount ∧ p.quote.amount < 9223372036854775808

/-- The number that a price is. -/
def rate (p : SymbolPrice) : ℚ := p.base.amount / p.quote.amount

/-- Where a price stands. -/
def place (p : SymbolPrice) : ℕ ×ₗ ℕ ×ₗ ℚ :=
  toLex (p.base.symbol.assetNum.toNat, toLex (p.quote.symbol.assetNum.toNat, p.rate))

variable {p q : SymbolPrice}

/-! ## The products are exact -/

theorem ofInt64_toNat {n : Int} (h : Natural n) : (UInt128.ofInt64 n).toNat = n.toNat := by
  obtain ⟨hpos, hlt⟩ := h
  rw [UInt128.ofInt64, if_neg (by omega), UInt128.toNat, UInt64.toNat_ofNat', UInt64.toNat_zero]
  omega

theorem Positive.natural (h : p.Positive) : Natural p.base.amount ∧ Natural p.quote.amount :=
  ⟨⟨h.base.1.le, h.base.2⟩, h.quote.1.le, h.quote.2⟩

theorem Positive.cross_eq (hp : p.Positive) (hq : q.Positive) :
    ((p.cross q).toNat : Int) = q.quote.amount * p.base.amount := by
  have hbase := hp.natural.1
  have hquote := hq.natural.2
  obtain ⟨hpos, hlt⟩ := mul_lt_of_natural hquote hbase
  rw [cross, UInt128.mul_toNat, ofInt64_toNat hquote, ofInt64_toNat hbase, Int.natCast_emod,
    Nat.cast_mul, Int.toNat_of_nonneg hquote.1, Int.toNat_of_nonneg hbase.1]
  exact Int.emod_eq_of_lt hpos hlt

theorem Positive.cross_lt_iff (hp : p.Positive) (hq : q.Positive) :
    (p.cross q).toNat < (q.cross p).toNat ↔ p.rate < q.rate := by
  have hpq : (0 : ℚ) < p.quote.amount := by exact_mod_cast hp.quote.1
  have hqq : (0 : ℚ) < q.quote.amount := by exact_mod_cast hq.quote.1
  rw [rate, rate, div_lt_div_iff₀ hpq hqq, ← Int.ofNat_lt, hp.cross_eq hq, hq.cross_eq hp,
    mul_comm q.quote.amount, mul_comm p.quote.amount]
  exact_mod_cast Iff.rfl

theorem Positive.cross_eq_iff (hp : p.Positive) (hq : q.Positive) :
    p.cross q = q.cross p ↔ p.rate = q.rate := by
  rw [← UInt128.toNat_inj]
  have hlt := hp.cross_lt_iff hq
  have hgt := hq.cross_lt_iff hp
  constructor
  · intro h
    apply le_antisymm
    · exact not_lt.mp fun h' => absurd (hgt.mpr h') (by omega)
    · exact not_lt.mp fun h' => absurd (hlt.mpr h') (by omega)
  · intro h
    have := mt hlt.mp (by rw [h]; exact lt_irrefl _)
    have := mt hgt.mp (by rw [h]; exact lt_irrefl _)
    omega

/-! ## The place of a price -/

theorem assetNum_inj {a b : AssetSymbolType} : a.assetNum.toNat = b.assetNum.toNat ↔ a = b := by
  rw [UInt32.toNat_inj]
  cases a
  cases b
  simp

theorem symbols_eq_iff : p.symbols = q.symbols ↔
    p.base.symbol.assetNum.toNat = q.base.symbol.assetNum.toNat ∧
      p.quote.symbol.assetNum.toNat = q.quote.symbol.assetNum.toNat := by
  rw [assetNum_inj, assetNum_inj, symbols, symbols, Prod.mk.injEq]

theorem symbols_ne_iff : Tie.ne p.symbols q.symbols = true ↔ p.symbols ≠ q.symbols := by
  rw [Tie.ne, Tie.eq, Bool.not_eq_true', ← Bool.not_eq_true, ne_eq, Prod.ext_iff]
  simp

/-- Prices with the same symbols. -/
theorem compare_of_eq {tie : AssetSymbolType × AssetSymbolType →
    AssetSymbolType × AssetSymbolType → Bool} {op : UInt128 → UInt128 → Bool}
    (h : p.symbols = q.symbols) : compare tie op p q = op (p.cross q) (q.cross p) := by
  rw [compare, if_neg]
  rw [symbols_ne_iff]
  exact not_not.mpr h

theorem compare_of_ne {tie : AssetSymbolType × AssetSymbolType →
    AssetSymbolType × AssetSymbolType → Bool} {op : UInt128 → UInt128 → Bool}
    (h : p.symbols ≠ q.symbols) : compare tie op p q = tie p.symbols q.symbols := by
  rw [compare, if_pos (symbols_ne_iff.mpr h)]

theorem tie_lt_iff : Tie.lt p.symbols q.symbols = true ↔
    p.base.symbol.assetNum.toNat < q.base.symbol.assetNum.toNat ∨
      (p.base.symbol.assetNum.toNat = q.base.symbol.assetNum.toNat ∧
        p.quote.symbol.assetNum.toNat < q.quote.symbol.assetNum.toNat) := by
  simp only [Tie.lt, Tie.symbolLt, symbols, Bool.or_eq_true, Bool.and_eq_true, Bool.not_eq_true',
    decide_eq_true_eq, decide_eq_false_iff_not, UInt32.lt_iff_toNat_lt]
  omega

theorem Positive.lt_iff (hp : p.Positive) (hq : q.Positive) :
    p.lt q = true ↔ p.place < q.place := by
  rw [place, place, Prod.Lex.toLex_lt_toLex, Prod.Lex.toLex_lt_toLex]
  by_cases h : p.symbols = q.symbols
  · obtain ⟨hbase, hquote⟩ := symbols_eq_iff.mp h
    rw [lt, compare_of_eq h, UInt128.lt_iff, hp.cross_lt_iff hq]
    simp [hbase, hquote]
  · rw [lt, compare_of_ne h, tie_lt_iff]
    rw [symbols_eq_iff] at h
    constructor
    · rintro (hlt | ⟨heq, hlt⟩)
      · exact .inl hlt
      · exact .inr ⟨heq, .inl hlt⟩
    · rintro (hlt | ⟨heq, hlt | ⟨heq', -⟩⟩)
      · exact .inl hlt
      · exact .inr ⟨heq, hlt⟩
      · exact absurd ⟨heq, heq'⟩ h

theorem Positive.eq_iff (hp : p.Positive) (hq : q.Positive) :
    p.eq q = true ↔ p.place = q.place := by
  rw [place, place, toLex_inj, Prod.mk.injEq, toLex_inj, Prod.mk.injEq]
  by_cases h : p.symbols = q.symbols
  · obtain ⟨hbase, hquote⟩ := symbols_eq_iff.mp h
    rw [eq, compare_of_eq h, decide_eq_true_eq, hp.cross_eq_iff hq]
    simp [hbase, hquote]
  · have hne : Tie.eq p.symbols q.symbols = false := by
      simpa [Tie.ne] using symbols_ne_iff.mpr h
    rw [eq, compare_of_ne h, hne]
    rw [symbols_eq_iff] at h
    simp only [Bool.false_eq_true, false_iff]
    intro heq
    exact h ⟨heq.1, heq.2.1⟩

/-- Four of the operators are the other two. -/
theorem ne_eq_not : p.ne q = !p.eq q := by
  by_cases h : p.symbols = q.symbols
  · rw [ne, eq, compare_of_eq h, compare_of_eq h, decide_not]
  · rw [ne, eq, compare_of_ne h, compare_of_ne h, Tie.ne]

theorem gt_eq_lt : p.gt q = q.lt p := by
  by_cases h : p.symbols = q.symbols
  · rw [gt, lt, compare_of_eq h, compare_of_eq h.symm, UInt128.gt]
  · rw [gt, lt, compare_of_ne h, compare_of_ne (Ne.symm h), Tie.gt]

theorem le_eq_not_lt : p.le q = !q.lt p := by
  by_cases h : p.symbols = q.symbols
  · rw [le, lt, compare_of_eq h, compare_of_eq h.symm, UInt128.le_eq_not_lt]
  · rw [le, lt, compare_of_ne h, compare_of_ne (Ne.symm h), Tie.le]

theorem ge_eq_not_lt : p.ge q = !p.lt q := by
  by_cases h : p.symbols = q.symbols
  · rw [ge, lt, compare_of_eq h, compare_of_eq h, UInt128.ge_eq_not_lt]
  · rw [ge, lt, compare_of_ne h, compare_of_ne h, Tie.ge]

/-! ## One pair of symbols -/

/-- A price of a market. -/
structure Quotes (market : AssetSymbolType × AssetSymbolType) (p : SymbolPrice) : Prop where
  positive : p.Positive
  symbols : p.symbols = market

/-- The six operators say how the rates compare. -/
structure ComparesRates (p q : SymbolPrice) : Prop where
  eq : p.eq q = true ↔ p.rate = q.rate
  ne : p.ne q = true ↔ p.rate ≠ q.rate
  lt : p.lt q = true ↔ p.rate < q.rate
  le : p.le q = true ↔ p.rate ≤ q.rate
  gt : p.gt q = true ↔ q.rate < p.rate
  ge : p.ge q = true ↔ q.rate ≤ p.rate

variable {market : AssetSymbolType × AssetSymbolType}

theorem Positive.incomparable_iff (hp : p.Positive) (hq : q.Positive) :
    p.eq q = true ↔ p.lt q = false ∧ q.lt p = false := by
  rw [hp.eq_iff hq, ← Bool.not_eq_true, ← Bool.not_eq_true, hp.lt_iff hq, hq.lt_iff hp, not_lt,
    not_lt, and_comm]
  exact le_antisymm_iff

theorem Quotes.lt_iff (hp : Quotes market p) (hq : Quotes market q) :
    p.lt q = true ↔ p.rate < q.rate := by
  rw [lt, compare_of_eq (hp.symbols.trans hq.symbols.symm), UInt128.lt_iff,
    hp.positive.cross_lt_iff hq.positive]

theorem Quotes.comparesRates (hp : Quotes market p) (hq : Quotes market q) :
    ComparesRates p q := by
  have heq : p.eq q = true ↔ p.rate = q.rate := by
    rw [SymbolPrice.eq, compare_of_eq (hp.symbols.trans hq.symbols.symm), decide_eq_true_eq,
      hp.positive.cross_eq_iff hq.positive]
  constructor
  · exact heq
  · rw [ne_eq_not, Bool.not_eq_true', ← Bool.not_eq_true, heq]
  · exact hp.lt_iff hq
  · rw [le_eq_not_lt, Bool.not_eq_true', ← Bool.not_eq_true, hq.lt_iff hp, not_lt]
  · rw [gt_eq_lt, hq.lt_iff hp]
  · rw [ge_eq_not_lt, Bool.not_eq_true', ← Bool.not_eq_true, hp.lt_iff hq, not_lt]

/-! ### Inverses and bounds -/

theorem make_eq_ok {base quote : SymbolAsset} : make base quote = .ok p ↔
    (0 < base.amount ∧ 0 < quote.amount ∧ base.symbol ≠ quote.symbol) ∧ p = ⟨base, quote⟩ := by
  have hvalid : (⟨base, quote⟩ : SymbolPrice).validate = .ok () ↔
      0 < base.amount ∧ 0 < quote.amount ∧ base.symbol ≠ quote.symbol := by
    simp [validate]
  rw [make, bind_eq_ok, ← hvalid]
  constructor
  · rintro ⟨u, hu, hp⟩
    exact ⟨hu, (pure_eq_ok.mp hp).symm⟩
  · rintro ⟨hu, hp⟩
    exact ⟨(), hu, pure_eq_ok.mpr hp.symm⟩

theorem over_eq_ok {base quote : SymbolAsset} : base.over quote = .ok p ↔
    (0 < base.amount ∧ 0 < quote.amount ∧ base.symbol ≠ quote.symbol) ∧ p = ⟨base, quote⟩ := by
  rw [SymbolAsset.over, ensure_bind_eq_ok, decide_eq_true_eq, make_eq_ok]
  tauto

theorem Quotes.symbols_eq (hp : Quotes market p) :
    p.base.symbol = market.1 ∧ p.quote.symbol = market.2 :=
  ⟨congrArg Prod.fst hp.symbols, congrArg Prod.snd hp.symbols⟩

theorem Quotes.inverse_eq_ok (hp : Quotes market p) :
    p.inverse = .ok q ↔ market.1 ≠ market.2 ∧ q = ⟨p.quote, p.base⟩ := by
  rw [inverse, make_eq_ok, hp.symbols_eq.1, hp.symbols_eq.2]
  have hbase := hp.positive.base.1
  have hquote := hp.positive.quote.1
  simp [hbase, hquote, eq_comm]

theorem Quotes.swap (hp : Quotes market p) : Quotes market.swap ⟨p.quote, p.base⟩ where
  positive := ⟨hp.positive.quote, hp.positive.base⟩
  symbols := by
    rw [← hp.symbols]
    rfl

/-- Of two positive fractions the smaller has the larger inverse. -/
theorem Quotes.lt_swap (hp : Quotes market p) (hq : Quotes market q) :
    lt ⟨p.quote, p.base⟩ ⟨q.quote, q.base⟩ = q.lt p := by
  have hpb : (0 : ℚ) < p.base.amount := by exact_mod_cast hp.positive.base.1
  have hpq : (0 : ℚ) < p.quote.amount := by exact_mod_cast hp.positive.quote.1
  have hqb : (0 : ℚ) < q.base.amount := by exact_mod_cast hq.positive.base.1
  have hqq : (0 : ℚ) < q.quote.amount := by exact_mod_cast hq.positive.quote.1
  rw [Bool.eq_iff_iff, hp.swap.lt_iff hq.swap, hq.lt_iff hp, rate, rate, rate, rate,
    div_lt_div_iff₀ hpb hqb, div_lt_div_iff₀ hqq hpq, mul_comm (p.quote.amount : ℚ),
    mul_comm (q.quote.amount : ℚ)]

/-- What `price::min` and `price::max` are. -/
theorem max_eq_ok : max market.1 market.2 = .ok q ↔ market.1 ≠ market.2 ∧
    q = ⟨⟨Price.maxSatoshis, market.1⟩, ⟨1, market.2⟩⟩ := by
  rw [max, over_eq_ok]
  simp [Price.maxSatoshis]

theorem min_eq_ok : min market.1 market.2 = .ok q ↔ market.1 ≠ market.2 ∧
    q = ⟨⟨1, market.1⟩, ⟨Price.maxSatoshis, market.2⟩⟩ := by
  rw [min, over_eq_ok]
  simp [Price.maxSatoshis]

/-- Amounts that an asset may have. -/
def Bounded (p : SymbolPrice) : Prop :=
  p.base.amount ≤ Price.maxSatoshis ∧ p.quote.amount ≤ Price.maxSatoshis

theorem Quotes.of_amounts {a b : Int} (ha : 0 < a ∧ a < 9223372036854775808)
    (hb : 0 < b ∧ b < 9223372036854775808) : Quotes market ⟨⟨a, market.1⟩, ⟨b, market.2⟩⟩ :=
  ⟨⟨ha, hb⟩, rfl⟩

theorem Quotes.le_max (hp : Quotes market p) (hb : p.Bounded) :
    p.le ⟨⟨Price.maxSatoshis, market.1⟩, ⟨1, market.2⟩⟩ = true := by
  have hmax : Quotes market ⟨⟨Price.maxSatoshis, market.1⟩, ⟨1, market.2⟩⟩ :=
    .of_amounts (by decide) (by decide)
  have hpq : (0 : ℚ) < p.quote.amount := by exact_mod_cast hp.positive.quote.1
  have hle : p.base.amount * 1 ≤ Price.maxSatoshis * p.quote.amount :=
    mul_le_mul hb.1 hp.positive.quote.1 (by decide) (by decide)
  rw [(hp.comparesRates hmax).le, rate, rate, div_le_div_iff₀ hpq (by norm_num)]
  exact_mod_cast hle

theorem Quotes.min_le (hp : Quotes market p) (hb : p.Bounded) :
    le ⟨⟨1, market.1⟩, ⟨Price.maxSatoshis, market.2⟩⟩ p = true := by
  have hmin : Quotes market ⟨⟨1, market.1⟩, ⟨Price.maxSatoshis, market.2⟩⟩ :=
    .of_amounts (by decide) (by decide)
  have hpq : (0 : ℚ) < p.quote.amount := by exact_mod_cast hp.positive.quote.1
  have hle : 1 * p.quote.amount ≤ p.base.amount * Price.maxSatoshis :=
    mul_le_mul hp.positive.base.1 hb.2 hp.positive.quote.1.le hp.positive.base.1.le
  rw [(hmin.comparesRates hp).le, rate, rate, div_le_div_iff₀ (by norm_num [Price.maxSatoshis]) hpq]
  exact_mod_cast hle

/-- **The order of prices**: in one market the operators compare the rates, `<`
is a strict weak order with the classes of `==`, `~` turns it round, and no
price lies outside the bounds; the inverses and the bounds exist for two
different symbols. Over all markets `<` is a strict weak order too, and `>`,
which sorts the order book. -/
theorem prices_ordered (market : AssetSymbolType × AssetSymbolType) :
    (∀ p q, Quotes market p → Quotes market q → ComparesRates p q ∧
      Returns p.inverse fun p' => Returns q.inverse fun q' => p'.lt q' = q.lt p) ∧
    (∀ p, Quotes market p → p.Bounded →
      Returns (min market.1 market.2) (fun lowest => lowest.le p = true) ∧
      Returns (max market.1 market.2) fun highest => p.le highest = true) ∧
    (market.1 ≠ market.2 → (∀ p, Quotes market p → ∃ p', p.inverse = .ok p') ∧
      (∃ lowest, min market.1 market.2 = .ok lowest) ∧
      ∃ highest, max market.1 market.2 = .ok highest) ∧
    StrictWeakOrder (Quotes market) lt ∧
    (∀ p q : SymbolPrice, p.Positive → q.Positive →
      (p.eq q = true ↔ p.lt q = false ∧ q.lt p = false)) ∧
    StrictWeakOrder Positive lt ∧ StrictWeakOrder Positive gt := by
  have hall : StrictWeakOrder Positive lt := .of_key fun p q hp hq => hp.lt_iff hq
  refine ⟨?_, ?_, ?_, ?_, ?_, hall, ?_⟩
  · intro p q hp hq
    refine ⟨hp.comparesRates hq, ?_⟩
    intro p' hp' q' hq'
    rw [(hp.inverse_eq_ok.mp hp').2, (hq.inverse_eq_ok.mp hq').2]
    exact hp.lt_swap hq
  · intro p hp hb
    constructor
    · intro lowest h
      rw [(min_eq_ok.mp h).2]
      exact hp.min_le hb
    · intro highest h
      rw [(max_eq_ok.mp h).2]
      exact hp.le_max hb
  · intro hne
    exact ⟨fun p hp => ⟨_, hp.inverse_eq_ok.mpr ⟨hne, rfl⟩⟩, ⟨_, min_eq_ok.mpr ⟨hne, rfl⟩⟩,
      ⟨_, max_eq_ok.mpr ⟨hne, rfl⟩⟩⟩
  · exact .of_key fun p q hp hq => hp.lt_iff hq
  · intro p q hp hq
    exact hp.incomparable_iff hq
  -- the order book sorts by `>`, which is `<` turned round
  · have hgt : gt = fun p q => lt q p := by
      ext p q
      rw [gt_eq_lt]
    rw [hgt]
    exact hall.swap

end SymbolPrice

/-! ## Prices of the core market -/

namespace Price

variable {p q : Price}

/-- The amounts are of type `int64_t`. -/
structure Fits (p : Price) : Prop where
  base : -9223372036854775808 ≤ p.base.amount ∧ p.base.amount < 9223372036854775808
  quote : -9223372036854775808 ≤ p.quote.amount ∧ p.quote.amount < 9223372036854775808

theorem ofInt64_toUInt128 {n : Int} (h : -9223372036854775808 ≤ n ∧ n < 9223372036854775808) :
    ((UInt128.ofInt64 n).toNat : Int) = toUInt128 n := by
  unfold UInt128.ofInt64 UInt128.toNat toUInt128
  by_cases hneg : n < 0
  · simp only [if_pos hneg, UInt64.toNat_ofNat', UInt64.reduceToNat]
    omega
  · simp only [if_neg hneg, UInt64.toNat_ofNat', UInt64.toNat_zero]
    omega

/-- The words of the products are the integers that the market computes with. -/
theorem Fits.general_cross (hp : p.Fits) (hq : q.Fits) :
    ((p.general.cross q.general).toNat : Int) = p.cross q := by
  rw [SymbolPrice.cross, UInt128.mul_toNat, Int.natCast_emod, Nat.cast_mul]
  show ((UInt128.ofInt64 q.quote.amount).toNat : Int) * (UInt128.ofInt64 p.base.amount).toNat % _ =
    _
  rw [ofInt64_toUInt128 hq.quote, ofInt64_toUInt128 hp.base]
  rfl

theorem general_symbols : p.general.symbols = q.general.symbols ↔ p.symbols = q.symbols := by
  rw [SymbolPrice.symbols_eq_iff, symbols, symbols, Prod.mk.injEq]
  simp only [general, Asset.general, AssetSymbolType.ofCore_assetNum]

theorem general_tie_lt : Tie.lt p.general.symbols q.general.symbols = true ↔
    p.symbols.1 < q.symbols.1 ∨ (p.symbols.1 = q.symbols.1 ∧ p.symbols.2 < q.symbols.2) := by
  rw [SymbolPrice.tie_lt_iff]
  simp only [general, Asset.general, AssetSymbolType.ofCore_assetNum, symbols]

theorem Fits.general_lt (hp : p.Fits) (hq : q.Fits) : p.general.lt q.general = p.lt q := by
  rw [Bool.eq_iff_iff, lt]
  by_cases h : p.symbols = q.symbols
  · rw [if_neg (not_not.mpr h), decide_eq_true_eq, SymbolPrice.lt,
      SymbolPrice.compare_of_eq (general_symbols.mpr h), UInt128.lt_iff, ← hp.general_cross hq,
      ← hq.general_cross hp, Int.ofNat_lt]
  · rw [if_pos h, decide_eq_true_eq, SymbolPrice.lt,
      SymbolPrice.compare_of_ne (mt general_symbols.mp h), general_tie_lt]

/-- The comparison of the order book. -/
theorem Fits.general_gt (hp : p.Fits) (hq : q.Fits) : p.general.gt q.general = p.gt q := by
  rw [SymbolPrice.gt_eq_lt, hq.general_lt hp, lt, gt]
  by_cases h : p.symbols = q.symbols
  · rw [if_neg (not_not.mpr h.symm), if_neg (not_not.mpr h)]
  · rw [if_pos (Ne.symm h), if_pos h, decide_eq_decide, @eq_comm _ q.symbols.1]

end Price

end Gamebank.Protocol
