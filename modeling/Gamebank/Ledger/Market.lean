import Gamebank.Protocol.Validation
import Gamebank.Ledger.Balances

/-!
# The market

`apply_order`, `match`, `fill_order`, `cancel_order` and
`clear_expired_orders` of `database.cpp`, and the three evaluators of limit
orders. An iterator into `by_price` is the order it points to; what comes
next is looked up where the source increments it, and the comparison with
the end is one of ids. The fuel of `matchOrders` bounds the number of turns.
-/

namespace Gamebank.Ledger

open Gamebank.Lib Gamebank.Protocol

/-- `GAMEBANK_HARDFORK_0_1_TIME`. -/
def hardfork01Time : Nat := 1597970800

/-- `GAMEBANK_MAX_LIMIT_ORDER_EXPIRATION`. -/
def maxLimitOrderExpiration : Nat := 2419200

/-- `limit_order_create_operation`. -/
structure LimitOrderCreateOperation where
  owner : AccountName
  orderid : Nat
  amountToSell : Asset
  minToReceive : Asset
  fillOrKill : Bool
  expiration : Nat
deriving DecidableEq

/-- `limit_order_create2_operation`. -/
structure LimitOrderCreate2Operation where
  owner : AccountName
  orderid : Nat
  amountToSell : Asset
  exchangeRate : Price
  fillOrKill : Bool
  expiration : Nat
deriving DecidableEq

/-- `limit_order_cancel_operation`. -/
structure LimitOrderCancelOperation where
  owner : AccountName
  orderid : Nat
deriving DecidableEq

/-- The two assets are those of the market. -/
def isMarket (sell receive : AssetSymbol) : Bool :=
  (sell = .gbc && receive = .gbd) || (sell = .gbd && receive = .gbc)

/-- `limit_order_create_operation::validate`. -/
def LimitOrderCreateOperation.validate (o : LimitOrderCreateOperation) : Except String Unit := do
  validateAccountName o.owner
  ensure (isMarket o.amountToSell.symbol o.minToReceive.symbol)
    "Limit order must be for the GBC:GBD market"
  let _ ← Price.make o.amountToSell o.minToReceive
  return ()

/-- `limit_order_create2_operation::validate`. -/
def LimitOrderCreate2Operation.validate (o : LimitOrderCreate2Operation) : Except String Unit := do
  validateAccountName o.owner
  ensure (o.amountToSell.symbol = o.exchangeRate.base.symbol)
    "Sell asset must be the base of the price"
  o.exchangeRate.validate
  ensure (isMarket o.amountToSell.symbol o.exchangeRate.quote.symbol)
    "Limit order must be for the GBC:GBD market"
  let receives ← o.amountToSell.times o.exchangeRate
  ensure (0 < receives.amount) "Amount to sell cannot round to 0 when traded"

/-- `limit_order_cancel_operation::validate`. -/
def LimitOrderCancelOperation.validate (o : LimitOrderCancelOperation) : Except String Unit :=
  validateAccountName o.owner

/-- The order of `by_price`: the highest price first, then the lowest id. -/
def LimitOrder.before (a b : LimitOrder) : Bool :=
  a.sellPrice.gt b.sellPrice || (!b.sellPrice.gt a.sellPrice && a.id < b.id)

namespace Database

/-! ## Orders in the book -/

/-- The order with an id. -/
def getOrder (s : Database) (id : Nat) : Except String LimitOrder :=
  require (s.limitOrders.find? fun o => o.id = id)

/-- The first order in `by_price` that `test` holds of. -/
def firstByPrice (s : Database) (test : LimitOrder → Bool) : Option LimitOrder :=
  Table.least LimitOrder.before (s.limitOrders.rows.filter test)

/-- `lower_bound` of `by_price`. -/
def lowerBound (s : Database) (p : Price) : Option LimitOrder :=
  s.firstByPrice fun o => !o.sellPrice.gt p

/-- `upper_bound` of `by_price`. -/
def upperBound (s : Database) (p : Price) : Option LimitOrder :=
  s.firstByPrice fun o => p.gt o.sellPrice

/-- `operator ++` of an iterator of `by_price`. -/
def nextByPrice (s : Database) (o : LimitOrder) : Option LimitOrder :=
  s.firstByPrice fun x => o.before x

/-- `remove` of an order. -/
def removeOrder (s : Database) (id : Nat) : Database :=
  { s with limitOrders := s.limitOrders.remove fun o => o.id = id }

/-- `cancel_order`. -/
def cancelOrder (s : Database) (id : Nat) : Except String Database := do
  let o ← s.getOrder id
  let s ← s.adjustBalance o.seller o.amountForSale
  return s.removeOrder id

/-! ## Matching -/

/-- `fill_order`; what it returns is `true` when the order has left the book. -/
def fillOrder (s : Database) (id : Nat) (pays receives : Asset) :
    Except String (Database × Bool) := do
  let o ← s.getOrder id
  ensure (o.amountForSale.symbol = pays.symbol) "error filling orders"
  ensure (pays.symbol ≠ receives.symbol) "error filling orders"
  let s ← s.adjustBalance o.seller receives
  if pays = o.amountForSale then
    return (s.removeOrder id, true)
  else
    ensure (!s.hardfork01 || pays.amount < o.forSale) "error filling orders"
    ensure (fitsInt64 (o.forSale - pays.amount)) "overflow"
    let left : LimitOrder := { o with forSale := o.forSale - pays.amount }
    let s : Database := { s with
      limitOrders := s.limitOrders.modify (fun o => o.id = id) fun o =>
        { o with forSale := o.forSale - pays.amount } }
    let receive ← left.amountToReceive
    -- what is left is too small to be sold at the price
    if receive.amount = 0 then
      let s ← s.cancelOrder id
      return (s, true)
    else return (s, false)

/-- What the new order and the old one pay in `match`. -/
def tradeAmounts (newForSale oldForSale : Asset) (matchPrice : Price) :
    Except String (Asset × Asset) := do
  let oldWorth ← oldForSale.times matchPrice
  ensure (newForSale.symbol = oldWorth.symbol) "a.symbol == b.symbol"
  if newForSale.amount ≤ oldWorth.amount then
    let newReceives ← newForSale.times matchPrice
    return (newForSale, newReceives)
  else return (oldWorth, oldForSale)

/-- `match`, at the price of the old order. What it returns says which of the
orders have left the book. -/
def matchOrder (s : Database) (newId oldId : Nat) : Except String (Database × Bool × Bool) := do
  let newOrder ← s.getOrder newId
  let oldOrder ← s.getOrder oldId
  let matchPrice := oldOrder.sellPrice
  ensure (!s.hardfork01 || newOrder.sellPrice.quote.symbol = oldOrder.sellPrice.base.symbol)
    "error matching orders"
  ensure (!s.hardfork01 || newOrder.sellPrice.base.symbol = oldOrder.sellPrice.quote.symbol)
    "error matching orders"
  ensure (!s.hardfork01 || (0 < newOrder.forSale && 0 < oldOrder.forSale)) "error matching orders"
  let (newPays, oldPays) ← tradeAmounts newOrder.amountForSale oldOrder.amountForSale matchPrice
  ensure (!s.hardfork01 || newPays = newOrder.amountForSale || oldPays = oldOrder.amountForSale)
    "error matching orders"
  let (s, newFilled) ← s.fillOrder newId newPays oldPays
  let (s, oldFilled) ← s.fillOrder oldId oldPays newPays
  ensure (!s.hardfork01 || newFilled || oldFilled) "error matching orders"
  return (s, newFilled, oldFilled)

/-- The loop of `apply_order`. -/
def matchOrders (newId : Nat) (limitEnd : Option LimitOrder) :
    Nat → Database → Option LimitOrder → Except String Database
  | 0, _, _ => .error "out of fuel"
  | fuel + 1, s, limitItr =>
      if limitItr.map LimitOrder.id = limitEnd.map LimitOrder.id then .ok s
      else
        match limitItr with
        | none => .error "past the end of the index"
        | some old => do
            let next := s.nextByPrice old
            let (s, finished, _) ← s.matchOrder newId old.id
            if finished then return s else matchOrders newId limitEnd fuel s next

/-- `apply_order`; what it returns is `true` when the order has left the book. -/
def applyOrder (s : Database) (id : Nat) : Except String (Database × Bool) := do
  let o ← s.getOrder id
  let maxPrice ← o.sellPrice.invert
  let top ← Price.max maxPrice.base.symbol maxPrice.quote.symbol
  let s ← matchOrders id (s.upperBound maxPrice) (s.limitOrders.rows.length + 1) s
    (s.lowerBound top)
  return (s, (s.limitOrders.find? fun o => o.id = id).isNone)

/-! ## The evaluators -/

/-- The part of the two evaluators that puts the order into the book. -/
def placeOrder (s : Database) (owner : AccountName) (orderid : Nat) (amountToSell : Asset)
    (sellPrice : Price) (expiration latest : Nat) : Except String Database := do
  ensure (s.headBlockTime < expiration) "Limit order has to expire after head block time."
  ensure (!s.hardfork01 || expiration ≤ s.headBlockTime + maxLimitOrderExpiration)
    "Limit Order Expiration must not be more than 28 days in the future"
  let balance ← s.getBalance owner amountToSell.symbol
  ensure (amountToSell.amount ≤ balance) "Account does not have sufficient funds for limit order."
  let s ← s.adjustBalance owner (-amountToSell)
  -- `by_account` is unique
  ensure (s.limitOrders.find? fun o => o.seller = owner && o.orderid = orderid).isNone
    "could not insert object"
  return { s with
    limitOrders := s.limitOrders.create fun id =>
      { id := id
        created := s.headBlockTime
        expiration := if s.hardfork01 then expiration else min expiration latest
        seller := owner
        orderid := orderid
        forSale := amountToSell.amount
        sellPrice := sellPrice } }

/-- The part of the two evaluators after that. -/
def settleOrder (s : Database) (id : Nat) (fillOrKill : Bool) : Except String Database := do
  let (s, filled) ← s.applyOrder id
  ensure (!fillOrKill || filled) "Cancelling order because it was not filled."
  return s

/-- `limit_order_create_evaluator`, up to `apply_order`. -/
def placeLimitOrder (s : Database) (o : LimitOrderCreateOperation) : Except String Database := do
  let sellPrice ← Price.make o.amountToSell o.minToReceive
  s.placeOrder o.owner o.orderid o.amountToSell sellPrice o.expiration
    (hardfork01Time + maxLimitOrderExpiration + s.headBlockId % 86400)

/-- `limit_order_create_evaluator`. -/
def limitOrderCreate (s : Database) (o : LimitOrderCreateOperation) : Except String Database := do
  let t ← s.placeLimitOrder o
  t.settleOrder s.limitOrders.nextId o.fillOrKill

/-- `limit_order_create2_evaluator`, up to `apply_order`. -/
def placeLimitOrder2 (s : Database) (o : LimitOrderCreate2Operation) : Except String Database :=
  s.placeOrder o.owner o.orderid o.amountToSell o.exchangeRate o.expiration
    (hardfork01Time + maxLimitOrderExpiration)

/-- `limit_order_create2_evaluator`. -/
def limitOrderCreate2 (s : Database) (o : LimitOrderCreate2Operation) : Except String Database := do
  let t ← s.placeLimitOrder2 o
  t.settleOrder s.limitOrders.nextId o.fillOrKill

/-- `limit_order_cancel_evaluator`. -/
def limitOrderCancel (s : Database) (o : LimitOrderCancelOperation) : Except String Database := do
  let order ← require (s.limitOrders.find? fun x => x.seller = o.owner && x.orderid = o.orderid)
  s.cancelOrder order.id

/-- The first order of `by_expiration`, if it has expired. -/
def expiredOrder (s : Database) : Option LimitOrder :=
  (s.limitOrders.first fun a b => a.expiration < b.expiration).filter fun o =>
    o.expiration < s.headBlockTime

/-- `clear_expired_orders`. -/
def clearExpiredOrders (s : Database) : Except String Database :=
  drain expiredOrder (fun o s => s.cancelOrder o.id) (s.limitOrders.rows.length + 1) s

end Database

end Gamebank.Ledger
