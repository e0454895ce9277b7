import Mathlib.Data.Prod.Lex
import Mathlib.Data.Rat.Defs
import Mathlib.Algebra.Order.Field.Rat
import Mathlib.Tactic.Linarith
import Mathlib.Tactic.FieldSimp
import Gamebank.Ledger.Market

/-!
# The order of prices

Prices are compared by cross multiplication in 128 bits. The amounts of a
proper price are positive and below 2 ^ 63, so the products are exact, and
prices with the same symbols are ordered as fractions are. `rank` is the
place of an order in `by_price`: GBC is sold first in the index, then come
the higher prices, then the lower ids.
-/

namespace Gamebank.Market

open Gamebank.Lib Gamebank.Protocol Gamebank.Ledger

/-- A price of the market, with positive amounts of type `int64_t`. -/
structure Proper (p : Price) : Prop where
  base : 0 < p.base.amount ∧ p.base.amount < 9223372036854775808
  quote : 0 < p.quote.amount ∧ p.quote.amount < 9223372036854775808
  market : isMarket p.base.symbol p.quote.symbol = true

/-- The price is not above `price::max`. -/
def Modest (p : Price) : Prop := p.base.amount ≤ Price.maxSatoshis * p.quote.amount

def rate (p : Price) : ℚ := p.base.amount / p.quote.amount

/-- The part of the index a price stands in. -/
def side (p : Price) : Nat := if p.base.symbol = .gbc then 0 else 1

def rank (o : LimitOrder) : ℕ ×ₗ ℚ ×ₗ ℕ := toLex (side o.sellPrice, toLex (-rate o.sellPrice, o.id))

variable {p q : Price} {a b : LimitOrder}

theorem validate_spec (p : Price) :
    Returns p.validate fun _ => 0 < p.base.amount ∧ 0 < p.quote.amount := by
  unfold Price.validate
  exact .ensure fun hbase => .ensure fun hquote _ _ =>
    ⟨of_decide_eq_true hbase, of_decide_eq_true hquote⟩

theorem make_spec (base quote : Asset) :
    Returns (Price.make base quote) fun p => p = ⟨base, quote⟩ ∧ 0 < base.amount ∧
      0 < quote.amount := by
  unfold Price.make
  exact .bind (validate_spec ⟨base, quote⟩) fun _ hpos => .pure ⟨rfl, hpos⟩

namespace Proper

theorem symbols (h : Proper p) :
    (p.base.symbol = .gbc ∧ p.quote.symbol = .gbd) ∨
      (p.base.symbol = .gbd ∧ p.quote.symbol = .gbc) := by
  have := h.market
  unfold isMarket at this
  simpa using this

theorem side_eq_iff (hp : Proper p) (hq : Proper q) : side p = side q ↔ p.symbols = q.symbols := by
  unfold side Price.symbols
  rcases hp.symbols with ⟨h1, h2⟩ | ⟨h1, h2⟩ <;> rcases hq.symbols with ⟨h3, h4⟩ | ⟨h3, h4⟩ <;>
    simp [h1, h2, h3, h4, AssetSymbol.assetNum]

theorem cross_eq (hp : Proper p) (hq : Proper q) :
    p.cross q = q.quote.amount * p.base.amount := by
  have hquote : toUInt128 q.quote.amount = q.quote.amount := by
    have := hq.quote
    unfold toUInt128
    omega
  have hbase : toUInt128 p.base.amount = p.base.amount := by
    have := hp.base
    unfold toUInt128
    omega
  have hbound : q.quote.amount * p.base.amount <
      9223372036854775808 * 9223372036854775808 :=
    mul_lt_mul' hq.quote.2.le hp.base.2 hp.base.1.le (by decide)
  have hpos : 0 ≤ q.quote.amount * p.base.amount := mul_nonneg hq.quote.1.le hp.base.1.le
  unfold Price.cross
  rw [hquote, hbase]
  unfold toUInt128
  omega

/-- Cross multiplication compares rates. -/
theorem rate_lt_iff (hp : Proper p) (hq : Proper q) :
    rate p < rate q ↔ p.base.amount * q.quote.amount < q.base.amount * p.quote.amount := by
  have hpq : (0 : ℚ) < p.quote.amount := by exact_mod_cast hp.quote.1
  have hqq : (0 : ℚ) < q.quote.amount := by exact_mod_cast hq.quote.1
  unfold rate
  rw [div_lt_div_iff₀ hpq hqq]
  exact_mod_cast Iff.rfl

/-- `operator >`, in the parts of the index. -/
theorem gt_iff (hp : Proper p) (hq : Proper q) :
    p.gt q = true ↔ side p < side q ∨ (side p = side q ∧ rate q < rate p) := by
  unfold Price.gt
  by_cases hside : side p = side q
  · rw [if_neg (not_not.mpr ((hp.side_eq_iff hq).mp hside)), decide_eq_true_eq, hq.cross_eq hp,
      hp.cross_eq hq, hq.rate_lt_iff hp, mul_comm p.quote.amount, mul_comm q.quote.amount]
    simp [hside]
  · have hne := fun h => hside ((hp.side_eq_iff hq).mpr h)
    rw [if_pos hne, decide_eq_true_eq]
    unfold side at hside ⊢
    unfold Price.symbols
    rcases hp.symbols with ⟨h1, h2⟩ | ⟨h1, h2⟩ <;> rcases hq.symbols with ⟨h3, h4⟩ | ⟨h3, h4⟩ <;>
      simp_all [AssetSymbol.assetNum]

/-- `operator <`, for the same symbols. -/
theorem lt_iff (hp : Proper p) (hq : Proper q) (hside : side p = side q) :
    p.lt q = true ↔ rate p < rate q := by
  unfold Price.lt
  rw [if_neg (not_not.mpr ((hp.side_eq_iff hq).mp hside)), decide_eq_true_eq, hq.cross_eq hp,
    hp.cross_eq hq, hp.rate_lt_iff hq, mul_comm p.quote.amount, mul_comm q.quote.amount]

/-- The inverse of a proper price. -/
theorem invert_eq (hp : Proper p) : p.invert = .ok ⟨p.quote, p.base⟩ := by
  have hne : p.quote.symbol ≠ p.base.symbol := by
    rcases hp.symbols with ⟨h1, h2⟩ | ⟨h1, h2⟩ <;> simp [h1, h2]
  unfold Price.invert Price.make Price.validate
  simp only [hp.quote.1, hp.base.1, decide_true, ne_eq, hne, not_false_eq_true]
  rfl

theorem inverse (hp : Proper p) : Proper ⟨p.quote, p.base⟩ where
  base := hp.quote
  quote := hp.base
  market := by
    rcases hp.symbols with ⟨h1, h2⟩ | ⟨h1, h2⟩ <;> simp [h1, h2, isMarket]

end Proper

theorem rank_lt_iff : rank a < rank b ↔ side a.sellPrice < side b.sellPrice ∨
    (side a.sellPrice = side b.sellPrice ∧ (rate b.sellPrice < rate a.sellPrice ∨
      (rate a.sellPrice = rate b.sellPrice ∧ a.id < b.id))) := by
  unfold rank
  rw [Prod.Lex.toLex_lt_toLex, Prod.Lex.toLex_lt_toLex]
  simp only [neg_lt_neg_iff, neg_inj]

/-- `before` is the order of the ranks. -/
theorem before_iff (ha : Proper a.sellPrice) (hb : Proper b.sellPrice) :
    a.before b = true ↔ rank a < rank b := by
  unfold LimitOrder.before
  rw [Bool.or_eq_true, Bool.and_eq_true, Bool.not_eq_true', ← Bool.not_eq_true, ha.gt_iff hb,
    hb.gt_iff ha, decide_eq_true_eq, rank_lt_iff]
  constructor
  · rintro (hlt | ⟨hnot, hid⟩)
    · tauto
    · push Not at hnot
      rcases lt_trichotomy (side a.sellPrice) (side b.sellPrice) with h | h | h
      · exact .inl h
      · rcases lt_trichotomy (rate a.sellPrice) (rate b.sellPrice) with h' | h' | h'
        · exact absurd (hnot.2 h.symm) (not_le.mpr h')
        · exact .inr ⟨h, .inr ⟨h', hid⟩⟩
        · exact .inr ⟨h, .inl h'⟩
      · exact absurd hnot.1 (not_le.mpr h)
  · rintro (hlt | ⟨hside, hlt | ⟨hrate, hid⟩⟩)
    · exact .inl (.inl hlt)
    · exact .inl (.inr ⟨hside, hlt⟩)
    · refine .inr ⟨?_, hid⟩
      rw [hside, hrate]
      simp

end Gamebank.Market
