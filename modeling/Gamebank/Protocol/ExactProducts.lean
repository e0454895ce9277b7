import Gamebank.Protocol.Products
import Gamebank.Protocol.SymbolType

/-!
# The product of an asset and a price

`operator *` for every symbol and every amount of 64 bits. The quotient is
stored as a signed number when its high word is zero, so it is the quotient
rounded down unless that is 2 ^ 63 or more.
-/

namespace Gamebank.Protocol

open Gamebank.Lib

/-! ## Assets of any symbol -/

/-- `asset`. -/
structure SymbolAsset where
  amount : Int
  symbol : AssetSymbolType
deriving DecidableEq, Repr

/-- `price`. -/
structure SymbolPrice where
  base : SymbolAsset
  quote : SymbolAsset
deriving DecidableEq, Repr

namespace SymbolPrice

/-- `price::validate`. -/
def validate (p : SymbolPrice) : Except String Unit := do
  ensure (0 < p.base.amount) "base.amount > share_type(0)"
  ensure (0 < p.quote.amount) "quote.amount > share_type(0)"
  ensure (p.base.symbol ≠ p.quote.symbol) "base.symbol != quote.symbol"

/-- What an asset of the symbol is multiplied by. -/
def numerator (p : SymbolPrice) (symbol : AssetSymbolType) : SymbolAsset :=
  if symbol = p.base.symbol then p.quote else p.base

/-- What the product is divided by. -/
def denominator (p : SymbolPrice) (symbol : AssetSymbolType) : SymbolAsset :=
  if symbol = p.base.symbol then p.base else p.quote

end SymbolPrice

namespace SymbolAsset

/-- One side of `operator *`. -/
def scale (a : SymbolAsset) (numerator denominator : SymbolAsset) : Except String SymbolAsset := do
  ensure (0 < denominator.amount) "amount.value > 0"
  let result := scaled a.amount numerator.amount denominator.amount
  ensure (result < 18446744073709551616) "result.hi == 0"
  return ⟨toInt64 result, numerator.symbol⟩

/-- `operator *` of an asset and a price. -/
def times (a : SymbolAsset) (p : SymbolPrice) : Except String SymbolAsset :=
  if a.symbol = p.base.symbol then a.scale p.quote p.base
  else if a.symbol = p.quote.symbol then a.scale p.base p.quote
  else .error "invalid asset * price"

end SymbolAsset

/-! ## The core assets are some of them -/

def Asset.general (a : Asset) : SymbolAsset := ⟨a.amount, .ofCore a.symbol⟩

def Price.general (p : Price) : SymbolPrice := ⟨p.base.general, p.quote.general⟩

theorem Asset.general_scale (a numerator denominator : Asset) :
    a.general.scale numerator.general denominator.general =
      (a.scale numerator denominator).map Asset.general := by
  unfold SymbolAsset.scale Asset.scale
  by_cases hpos : 0 < denominator.amount
  · by_cases hword :
      scaled a.amount numerator.amount denominator.amount < 18446744073709551616
    · simp [Asset.general, ensure, hpos, hword, bind, Except.bind, Except.map, pure, Except.pure]
    · simp [Asset.general, ensure, hpos, hword, bind, Except.bind, Except.map]
  · simp [Asset.general, ensure, hpos, bind, Except.bind, Except.map]

/-- The product of core assets is the product here. -/
theorem Asset.general_times (a : Asset) (p : Price) :
    a.general.times p.general = (a.times p).map Asset.general := by
  have hsymbol : ∀ s s' : AssetSymbol,
      AssetSymbolType.ofCore s = .ofCore s' ↔ s = s' := by
    intro s s'
    exact ⟨AssetSymbolType.ofCore_injective, fun h => h ▸ rfl⟩
  unfold SymbolAsset.times Asset.times
  have hbase : a.general.symbol = p.general.base.symbol ↔ a.symbol = p.base.symbol :=
    hsymbol _ _
  have hquote : a.general.symbol = p.general.quote.symbol ↔ a.symbol = p.quote.symbol :=
    hsymbol _ _
  by_cases h : a.symbol = p.base.symbol
  · rw [if_pos h, if_pos (hbase.mpr h)]
    exact a.general_scale p.quote p.base
  · rw [if_neg h, if_neg (mt hbase.mp h)]
    by_cases h' : a.symbol = p.quote.symbol
    · rw [if_pos h', if_pos (hquote.mpr h')]
      exact a.general_scale p.base p.quote
    · rw [if_neg h', if_neg (mt hquote.mp h')]
      rfl

/-! ## Exactness -/

namespace SymbolAsset

/-- A price with positive amounts of 64 bits and two symbols, one of them that
of the asset. -/
structure Matches (a : SymbolAsset) (p : SymbolPrice) : Prop where
  base : Natural p.base.amount
  quote : Natural p.quote.amount
  valid : p.validate = .ok ()
  symbol : a.symbol = p.base.symbol ∨ a.symbol = p.quote.symbol

variable {a b : SymbolAsset} {p : SymbolPrice}

theorem Matches.facts (h : a.Matches p) :
    0 < p.base.amount ∧ 0 < p.quote.amount ∧ p.base.symbol ≠ p.quote.symbol := by
  simpa [SymbolPrice.validate] using h.valid

/-- Either side of the price. -/
theorem Matches.times_eq (h : a.Matches p) :
    a.times p = a.scale (p.numerator a.symbol) (p.denominator a.symbol) := by
  unfold times SymbolPrice.numerator SymbolPrice.denominator
  by_cases hbase : a.symbol = p.base.symbol
  · simp [hbase]
  · have hquote := h.symbol.resolve_left hbase
    have hne : ¬p.quote.symbol = p.base.symbol := fun heq => hbase (hquote.trans heq)
    simp [hquote, hne]

theorem Matches.natural (h : a.Matches p) (symbol : AssetSymbolType) :
    Natural (p.numerator symbol).amount ∧ Natural (p.denominator symbol).amount ∧
      0 < (p.numerator symbol).amount ∧ 0 < (p.denominator symbol).amount := by
  obtain ⟨hbase, hquote, -⟩ := h.facts
  unfold SymbolPrice.numerator SymbolPrice.denominator
  by_cases hs : symbol = p.base.symbol
  · simp [hs, h.base, h.quote, hbase, hquote]
  · simp [hs, h.base, h.quote, hbase, hquote]

/-- The quotient, as an integer. -/
def quotient (a : SymbolAsset) (p : SymbolPrice) : Int :=
  a.amount * (p.numerator a.symbol).amount / (p.denominator a.symbol).amount

/-- When the product returns, and what. -/
theorem Matches.times_eq_ok (h : a.Matches p) (ha : Natural a.amount) :
    a.times p = .ok b ↔ a.quotient p < 18446744073709551616 ∧
      b = ⟨toInt64 (a.quotient p), (p.numerator a.symbol).symbol⟩ := by
  obtain ⟨hnum, hden, -, hpos⟩ := h.natural a.symbol
  rw [h.times_eq, scale, @eq_comm _ b]
  simp only [scaled_eq ha hnum hden, ensure_bind_eq_ok, decide_eq_true_eq, pure_eq_ok, hpos,
    true_and, quotient]

/-- The other symbol of the price, and back. -/
theorem Matches.back (h : a.Matches p) (hb : b.symbol = (p.numerator a.symbol).symbol) :
    b.Matches p ∧ p.numerator b.symbol = p.denominator a.symbol ∧
      p.denominator b.symbol = p.numerator a.symbol ∧
      (p.denominator a.symbol).symbol = a.symbol := by
  obtain ⟨-, -, hne⟩ := h.facts
  unfold SymbolPrice.numerator SymbolPrice.denominator at *
  by_cases hbase : a.symbol = p.base.symbol
  · rw [if_pos hbase] at hb
    refine ⟨⟨h.base, h.quote, h.valid, .inr hb⟩, ?_⟩
    simp [hb, hbase, hne.symm]
  · rw [if_neg hbase] at hb
    refine ⟨⟨h.base, h.quote, h.valid, .inl hb⟩, ?_⟩
    simp [hb, h.symbol.resolve_left hbase, hne.symm]

/-- If the product returns, it is the quotient rounded down, in the other
symbol; it is not negative, and turned back it is no more than the asset. -/
structure ExactOrFails (a : SymbolAsset) (p : SymbolPrice) : Prop where
  exact : Returns (a.times p) fun b =>
    b = ⟨a.quotient p, (p.numerator a.symbol).symbol⟩
  natural : Returns (a.times p) fun b => 0 ≤ b.amount
  back : Returns (a.times p) fun b => Returns (b.times p) fun c =>
    c.symbol = a.symbol ∧ c.amount ≤ a.amount

theorem Matches.quotient_nonneg (h : a.Matches p) (ha : Natural a.amount) : 0 ≤ a.quotient p := by
  obtain ⟨hnum, hden, -, hpos⟩ := h.natural a.symbol
  exact Int.ediv_nonneg (mul_nonneg ha.1 hnum.1) hpos.le

/-- A quotient of 63 bits is stored as it is, and may be turned back. -/
theorem Matches.exactOrFails (h : a.Matches p) (ha : Natural a.amount)
    (hfits : a.quotient p < 9223372036854775808) : a.ExactOrFails p := by
  have hexact : Returns (a.times p) fun b =>
      b = ⟨a.quotient p, (p.numerator a.symbol).symbol⟩ := by
    intro b hb
    rw [((h.times_eq_ok ha).mp hb).2, toInt64, if_pos hfits]
  have hnonneg := h.quotient_nonneg ha
  refine ⟨hexact, ?_, ?_⟩
  · intro b hb
    rw [hexact b hb]
    exact hnonneg
  · intro b hb c hc
    have hbeq := hexact b hb
    obtain ⟨hmatches, hnum, hden, hsymbol⟩ := h.back (b := b) (by rw [hbeq])
    obtain ⟨-, -, hnpos, hdpos⟩ := h.natural a.symbol
    have hback : b.quotient p ≤ a.amount := by
      rw [quotient, hnum, hden]
      exact turned_back_le hnpos hdpos (by rw [hbeq]; exact Int.le_refl _)
    have hbnat : Natural b.amount := by
      rw [hbeq]
      exact ⟨hnonneg, hfits⟩
    obtain ⟨-, hceq⟩ := (hmatches.times_eq_ok hbnat).mp hc
    have hsmall : b.quotient p < 9223372036854775808 := Int.lt_of_le_of_lt hback ha.2
    rw [hceq, hnum, toInt64, if_pos hsmall]
    exact ⟨hsymbol, hback⟩

/-- **Exact products**: for an amount that is not negative, the product with a
price is exact or fails, if and only if the quotient is not one of 64 bits with
the highest bit set. -/
theorem times_exact_iff (a : SymbolAsset) (p : SymbolPrice) (ha : Natural a.amount)
    (h : a.Matches p) :
    a.ExactOrFails p ↔
      ¬(9223372036854775808 * (p.denominator a.symbol).amount ≤
          a.amount * (p.numerator a.symbol).amount ∧
        a.amount * (p.numerator a.symbol).amount <
          18446744073709551616 * (p.denominator a.symbol).amount) := by
  obtain ⟨-, -, -, hpos⟩ := h.natural a.symbol
  rw [← Int.le_ediv_iff_mul_le hpos, ← Int.ediv_lt_iff_lt_mul hpos]
  show _ ↔ ¬(9223372036854775808 ≤ a.quotient p ∧ a.quotient p < 18446744073709551616)
  constructor
  · rintro hexact ⟨hlow, hhigh⟩
    have hproduct := (h.times_eq_ok ha).mpr ⟨hhigh, rfl⟩
    have hnonneg := hexact.natural _ hproduct
    -- what is stored is the quotient less 2 ^ 64
    rw [toInt64, if_neg (by omega)] at hnonneg
    simp only at hnonneg
    omega
  · intro hfits
    by_cases hlow : a.quotient p < 9223372036854775808
    · exact h.exactOrFails ha hlow
    · -- the high word is not zero, so the product throws
      have hthrows : ∀ b, a.times p ≠ .ok b := by
        intro b hb
        exact hfits ⟨by omega, ((h.times_eq_ok ha).mp hb).1⟩
      refine ⟨?_, ?_, ?_⟩
      · intro b hb
        exact absurd hb (hthrows b)
      · intro b hb
        exact absurd hb (hthrows b)
      · intro b hb
        exact absurd hb (hthrows b)

end SymbolAsset

/-! ### Three GBD for two GBC, and the largest amount -/

/-- Of these amounts, in GBD and GBC. -/
def coreAssetPrice (gbd gbc : Int) : SymbolPrice := ⟨⟨gbd, .ofCore .gbd⟩, ⟨gbc, .ofCore .gbc⟩⟩

theorem SymbolAsset.times_exact_iff_seven :
    (SymbolAsset.mk 7 (.ofCore .gbd)).times (coreAssetPrice 3 2) = .ok ⟨4, .ofCore .gbc⟩ ∧
    (SymbolAsset.mk 7 (.ofCore .gbd)).ExactOrFails (coreAssetPrice 3 2) :=
  ⟨rfl, (SymbolAsset.times_exact_iff ⟨7, .ofCore .gbd⟩ (coreAssetPrice 3 2) ⟨by decide, by decide⟩
    ⟨⟨by decide, by decide⟩, ⟨by decide, by decide⟩, rfl, .inl rfl⟩).mpr (by decide)⟩

/-- Twice 2 ^ 62 is stored as a negative amount. -/
theorem SymbolAsset.times_negative :
    (SymbolAsset.mk 4611686018427387904 (.ofCore .gbd)).times (coreAssetPrice 1 2) =
      .ok ⟨-9223372036854775808, .ofCore .gbc⟩ := by
  decide

theorem SymbolAsset.times_not_exact :
    ¬(SymbolAsset.mk 4611686018427387904 (.ofCore .gbd)).ExactOrFails (coreAssetPrice 1 2) := by
  intro h
  exact absurd (h.natural _ SymbolAsset.times_negative) (by decide)

end Gamebank.Protocol
