import Gamebank.Lib.Checked

/-!
# Assets

`protocol/asset.hpp`. Amounts are `share_type`, a `safe<int64_t>` that throws
on overflow, so they are integers here. Products with a price are computed
in `uint128_t`, which wraps.
-/

namespace Gamebank.Protocol

open Gamebank.Lib

/-- The symbols of the core assets. -/
inductive AssetSymbol where
  | gbc
  | gbd
  | gbs
deriving DecidableEq, Repr

/-- `asset_num`, by which symbols are ordered. -/
def AssetSymbol.assetNum : AssetSymbol → Nat
  | .gbd => 1600000003
  | .gbc => 1600000019
  | .gbs => 1600000038

/-- `asset_symbol_type::is_vesting`. -/
def AssetSymbol.isVesting : AssetSymbol → Bool
  | .gbc => false
  | .gbd => false
  | .gbs => true

/-- `asset`. -/
structure Asset where
  amount : Int
  symbol : AssetSymbol
deriving DecidableEq, Repr

namespace Asset

/-- `is_asset_type`. -/
def isAssetType (a : Asset) (symbol : AssetSymbol) : Bool := a.symbol = symbol

def gbc (amount : Int) : Asset := ⟨amount, .gbc⟩

theorem eq_gbc {a : Asset} (h : a.symbol = .gbc) : a = gbc a.amount := by
  rw [gbc, ← h]

def gbd (amount : Int) : Asset := ⟨amount, .gbd⟩

def gbs (amount : Int) : Asset := ⟨amount, .gbs⟩

instance : Neg Asset where
  neg a := ⟨-a.amount, a.symbol⟩

@[simp] theorem amount_neg (a : Asset) : (-a).amount = -a.amount := rfl

@[simp] theorem symbol_neg (a : Asset) : (-a).symbol = a.symbol := rfl

end Asset

/-! ## 64- and 128-bit numbers -/

/-- The value of an integer as a `uint64_t`. -/
def toUInt64 (n : Int) : Int := n % 18446744073709551616

/-- The value of an integer as a `uint128_t`. -/
def toUInt128 (n : Int) : Int := n % 340282366920938463463374607431768211456

/-- The value of a `uint64_t` as an `int64_t`. -/
def toInt64 (n : Int) : Int :=
  if n < 9223372036854775808 then n else n - 18446744073709551616

/-! ## Prices -/

/-- `price`. -/
structure Price where
  base : Asset
  quote : Asset
deriving DecidableEq, Repr

namespace Price

/-- The default constructor. -/
def empty : Price := ⟨.gbc 0, .gbc 0⟩

/-- `price::validate`, which the constructor from two assets calls. -/
def validate (p : Price) : Except String Unit := do
  ensure (0 < p.base.amount) "base.amount > share_type(0)"
  ensure (0 < p.quote.amount) "quote.amount > share_type(0)"
  ensure (p.base.symbol ≠ p.quote.symbol) "base.symbol != quote.symbol"

def make (base quote : Asset) : Except String Price := do
  let p : Price := ⟨base, quote⟩
  p.validate
  return p

/-- The order of the symbols of two prices. -/
def symbols (p : Price) : Nat × Nat := (p.base.symbol.assetNum, p.quote.symbol.assetNum)

/-- The two products that are compared when the symbols agree. -/
def cross (a b : Price) : Int := toUInt128 (toUInt128 b.quote.amount * toUInt128 a.base.amount)

/-- `operator ==`. -/
def eq (a b : Price) : Bool :=
  if a.symbols ≠ b.symbols then false else a.cross b = b.cross a

/-- `operator <`. -/
def lt (a b : Price) : Bool :=
  if a.symbols ≠ b.symbols then
    a.symbols.1 < b.symbols.1 ∨ (a.symbols.1 = b.symbols.1 ∧ a.symbols.2 < b.symbols.2)
  else a.cross b < b.cross a

/-- `operator <=`. -/
def le (a b : Price) : Bool :=
  if a.symbols ≠ b.symbols then
    a.symbols.1 < b.symbols.1 ∨ (a.symbols.1 = b.symbols.1 ∧ a.symbols.2 < b.symbols.2)
  else a.cross b ≤ b.cross a

/-- `operator >`. -/
def gt (a b : Price) : Bool :=
  if a.symbols ≠ b.symbols then
    b.symbols.1 < a.symbols.1 ∨ (a.symbols.1 = b.symbols.1 ∧ b.symbols.2 < a.symbols.2)
  else b.cross a < a.cross b

/-- `price::is_null`. -/
def isNull (p : Price) : Bool := p.eq empty

/-- `operator ~`. -/
def invert (p : Price) : Except String Price := make p.quote p.base

/-- `GAMEBANK_MAX_SATOSHIS`. -/
def maxSatoshis : Int := 4611686018427387903

/-- `price::max`. -/
def max (base quote : AssetSymbol) : Except String Price := make ⟨maxSatoshis, base⟩ ⟨1, quote⟩

end Price

/-- The product of an amount and a fraction, in 128 bits. -/
def scaled (amount numerator denominator : Int) : Int :=
  toUInt128 (toUInt128 amount * toUInt128 numerator) / toUInt128 denominator

/-- One side of `operator *`: the amount times the numerator over the
denominator. -/
def Asset.scale (a : Asset) (numerator denominator : Asset) : Except String Asset := do
  ensure (0 < denominator.amount) "amount.value > 0"
  let result := scaled a.amount numerator.amount denominator.amount
  ensure (result < 18446744073709551616) "result.hi == 0"
  return ⟨toInt64 result, numerator.symbol⟩

/-- `operator *` of an asset and a price. -/
def Asset.times (a : Asset) (p : Price) : Except String Asset :=
  if a.symbol = p.base.symbol then a.scale p.quote p.base
  else if a.symbol = p.quote.symbol then a.scale p.base p.quote
  else .error "invalid asset * price"

theorem Asset.scale_symbol (a numerator denominator : Asset) :
    Returns (a.scale numerator denominator) fun b => b.symbol = numerator.symbol := by
  unfold Asset.scale
  exact .ensure fun _ => .ensure fun _ => .pure rfl

/-- The product has the other symbol of the price. -/
theorem Asset.times_symbol (a : Asset) (p : Price) :
    Returns (a.times p) fun b =>
      b.symbol = if a.symbol = p.base.symbol then p.quote.symbol else p.base.symbol := by
  unfold Asset.times
  split
  next h => exact a.scale_symbol _ _
  next h =>
    split
    next => exact a.scale_symbol _ _
    next => exact .error

end Gamebank.Protocol
