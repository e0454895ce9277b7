import Gamebank.Ledger.Calls
import Gamebank.Market.Matching
import Gamebank.Protocol.Products

/-!
# Orders and what happens to them

An order is worth what its price makes of the amount it has for sale. Both
evaluators make sure that a new order is worth something, the second one by
multiplying the two; they put the order at the end of the book and match it
then.
-/

namespace Gamebank.Market

open Gamebank.Lib Gamebank.Protocol Gamebank.Ledger
open Gamebank.Ledger.Database

variable {s t : Database} {o new : LimitOrder} {p : Price} {a : Int}

/-! ## What an order is worth -/

theorem Proper.base_natural (h : Proper p) : Natural p.base.amount := ⟨h.base.1.le, h.base.2⟩

theorem Proper.quote_natural (h : Proper p) : Natural p.quote.amount := ⟨h.quote.1.le, h.quote.2⟩

theorem toInt64_of_lt {n : Int} (h : n < 9223372036854775808) : toInt64 n = n := by
  unfold toInt64
  rw [if_pos h]

/-- An amount sold at a price. -/
theorem times_base (hp : Proper p) (ha : Natural a)
    (hfits : a * p.quote.amount / p.base.amount < 9223372036854775808) :
    (⟨a, p.base.symbol⟩ : Asset).times p =
      .ok ⟨a * p.quote.amount / p.base.amount, p.quote.symbol⟩ := by
  unfold Asset.times
  rw [if_pos rfl, Asset.scale_eq_ok ha hp.quote_natural hp.base_natural, toInt64_of_lt hfits]
  exact ⟨hp.base.1, by omega, rfl⟩

/-- An amount bought at a price. -/
theorem times_quote (hp : Proper p) (ha : Natural a)
    (hfits : a * p.base.amount / p.quote.amount < 9223372036854775808) :
    (⟨a, p.quote.symbol⟩ : Asset).times p =
      .ok ⟨a * p.base.amount / p.quote.amount, p.base.symbol⟩ := by
  have hne : p.quote.symbol ≠ p.base.symbol := by
    rcases hp.symbols with ⟨h1, h2⟩ | ⟨h1, h2⟩ <;> simp [h1, h2]
  unfold Asset.times
  rw [if_neg hne, if_pos rfl, Asset.scale_eq_ok ha hp.base_natural hp.quote_natural,
    toInt64_of_lt hfits]
  exact ⟨hp.quote.1, by omega, rfl⟩

/-- A negative amount is out of range when it is multiplied. -/
theorem times_negative (hp : Proper p) (hlow : -9223372036854775808 ≤ a) (hneg : a < 0) :
    ∀ b, (⟨a, p.base.symbol⟩ : Asset).times p ≠ .ok b := by
  intro b hb
  obtain ⟨hq, hq'⟩ := hp.quote
  obtain ⟨hb0, hb'⟩ := hp.base
  unfold Asset.times at hb
  rw [if_pos rfl] at hb
  unfold Asset.scale at hb
  obtain ⟨-, hb⟩ := ensure_bind_eq_ok.mp hb
  obtain ⟨hfits, -⟩ := ensure_bind_eq_ok.mp hb
  have hfits := of_decide_eq_true hfits
  have hquote : toUInt128 p.quote.amount = p.quote.amount := by
    unfold toUInt128
    omega
  have hbase : toUInt128 p.base.amount = p.base.amount := by
    unfold toUInt128
    omega
  have hamount : toUInt128 a = 340282366920938463463374607431768211456 + a := by
    unfold toUInt128
    omega
  -- the product lies between -2 ^ 126 and 0
  have hle : a * p.quote.amount < 0 := mul_neg_of_neg_of_pos hneg hq
  have hge : -(9223372036854775808 * 9223372036854775808) ≤ a * p.quote.amount := by nlinarith
  have hproduct : toUInt128 ((340282366920938463463374607431768211456 + a) * p.quote.amount) =
      340282366920938463463374607431768211456 + a * p.quote.amount := by
    unfold toUInt128
    rw [add_mul]
    omega
  unfold scaled at hfits
  rw [hquote, hbase, hamount, hproduct, Int.ediv_lt_iff_lt_mul hb0] at hfits
  nlinarith

/-- What an order is worth at its price. -/
def worth (o : LimitOrder) : Int := o.forSale * o.sellPrice.quote.amount / o.sellPrice.base.amount

/-- An order with something to sell, that is worth something. -/
structure Live (o : LimitOrder) : Prop where
  proper : Proper o.sellPrice
  forSale : 0 < o.forSale ∧ o.forSale < 9223372036854775808
  worth : 0 < worth o ∧ worth o < 9223372036854775808

theorem Live.natural (h : Live o) : Natural o.forSale := ⟨h.forSale.1.le, h.forSale.2⟩

theorem Live.amountToReceive_eq (h : Live o) :
    o.amountToReceive = .ok ⟨Market.worth o, o.sellPrice.quote.symbol⟩ :=
  times_base h.proper h.natural h.worth.2

/-- Less of an order is worth no more. -/
theorem worth_mono (hp : Proper o.sellPrice) (ha : a ≤ o.forSale) :
    Market.worth { o with forSale := a } ≤ Market.worth o := by
  unfold worth
  exact Int.ediv_le_ediv hp.base.1 (mul_le_mul_of_nonneg_right ha hp.quote.1.le)

/-- What is left of an order that is worth something. -/
theorem Live.left (h : Live o) (hpos : 0 < a) (hle : a ≤ o.forSale) {receive : Asset}
    (hreceive : ({ o with forSale := a } : LimitOrder).amountToReceive = .ok receive)
    (hworth : receive.amount ≠ 0) : Live { o with forSale := a } := by
  have hbound : Market.worth { o with forSale := a } ≤ Market.worth o := worth_mono h.proper hle
  have hlast := h.worth.2
  have heq : ({ o with forSale := a } : LimitOrder).amountToReceive =
      .ok ⟨Market.worth { o with forSale := a }, o.sellPrice.quote.symbol⟩ :=
    times_base h.proper ⟨hpos.le, lt_of_le_of_lt hle h.forSale.2⟩ (lt_of_le_of_lt hbound hlast)
  rw [heq, Except.ok.injEq] at hreceive
  have hne : Market.worth { o with forSale := a } ≠ 0 := by
    rw [← hreceive] at hworth
    exact hworth
  have hnonneg : 0 ≤ Market.worth { o with forSale := a } :=
    Int.ediv_nonneg (mul_nonneg hpos.le h.proper.quote.1.le) h.proper.base.1.le
  exact ⟨h.proper, ⟨hpos, lt_of_le_of_lt hle h.forSale.2⟩, by omega, by omega⟩

/-! ## Events -/

/-- What can happen to the book. -/
inductive Event where
  | create (o : LimitOrderCreateOperation)
  | create2 (o : LimitOrderCreate2Operation)
  | cancel (o : LimitOrderCancelOperation)
  | expire
  | elsewhere (t : Database)

/-- The amounts of an operation are of type `int64_t`. -/
def ensureInt64 (amounts : List Int) : Except String Unit :=
  ensure (amounts.all fitsInt64) "int64_t"

/-- An event up to `apply_order`; only two of them call it. -/
def place (s : Database) : Event → Except String Database
  | .create o => do
      ensureInt64 [o.amountToSell.amount, o.minToReceive.amount]
      o.validate
      s.placeLimitOrder o
  | .create2 o => do
      ensureInt64 [o.amountToSell.amount, o.exchangeRate.base.amount, o.exchangeRate.quote.amount]
      o.validate
      s.placeLimitOrder2 o
  | _ => .error "no order is placed"

def perform (s : Database) : Event → Except String Database
  | .create o => do
      ensureInt64 [o.amountToSell.amount, o.minToReceive.amount]
      o.validate
      s.limitOrderCreate o
  | .create2 o => do
      ensureInt64 [o.amountToSell.amount, o.exchangeRate.base.amount, o.exchangeRate.quote.amount]
      o.validate
      s.limitOrderCreate2 o
  | .cancel o => do
      o.validate
      s.limitOrderCancel o
  | .expire => s.clearExpiredOrders
  | .elsewhere t => do
      ensure (t.limitOrders = s.limitOrders) "the book has been changed"
      return t

/-- The state after an event; one that throws changes nothing. -/
def step (s : Database) (e : Event) : Database := attempt s (perform s e)

/-- What places an order settles it then. -/
theorem perform_create (s : Database) (o : LimitOrderCreateOperation) :
    perform s (.create o) = place s (.create o) >>= fun t =>
      t.settleOrder s.limitOrders.nextId o.fillOrKill := by
  simp only [perform, place, limitOrderCreate, bind_assoc]

theorem perform_create2 (s : Database) (o : LimitOrderCreate2Operation) :
    perform s (.create2 o) = place s (.create2 o) >>= fun t =>
      t.settleOrder s.limitOrders.nextId o.fillOrKill := by
  simp only [perform, place, limitOrderCreate2, bind_assoc]

/-! ## A new order -/

/-- The order that the evaluators create. -/
def newOrder (s : Database) (owner : AccountName) (orderid : Nat) (amountToSell : Asset)
    (sellPrice : Price) (expiration latest : Nat) : LimitOrder where
  id := s.limitOrders.nextId
  created := s.headBlockTime
  expiration := if s.hardfork01 then expiration else min expiration latest
  seller := owner
  orderid := orderid
  forSale := amountToSell.amount
  sellPrice := sellPrice

/-- `t` is `s` with a new order at the end of the book. -/
structure Adds (s t : Database) (new : LimitOrder) : Prop where
  rows : t.limitOrders.rows = s.limitOrders.rows ++ [new]
  nextId : t.limitOrders.nextId = s.limitOrders.nextId + 1
  id : new.id = s.limitOrders.nextId

theorem placeOrder_adds (s : Database) (owner : AccountName) (orderid : Nat) (amount : Asset)
    (price : Price) (expiration latest : Nat) :
    Returns (s.placeOrder owner orderid amount price expiration latest) fun t =>
      Adds s t (newOrder s owner orderid amount price expiration latest) := by
  unfold placeOrder
  refine .ensure fun _ => .ensure fun _ => .bind_eq fun balance hbalance => .ensure fun _ => ?_
  -- a balance can be read, so the amount is not in vesting shares
  have hsymbol : (-amount).symbol ≠ .gbs := by
    intro hgbs
    have hgbs : amount.symbol = .gbs := hgbs
    unfold getBalance at hbalance
    obtain ⟨_, _, hbalance⟩ := bind_eq_ok.mp hbalance
    rw [hgbs] at hbalance
    cases hbalance
  refine .bind_eq fun t ht => .ensure fun _ => .pure ?_
  have hcredited := adjustBalance_credited hsymbol ht
  have hbook : t.limitOrders = s.limitOrders := by rw [hcredited.rest]
  have hfork : t.hardfork01 = s.hardfork01 := by rw [hcredited.rest]
  have hnew : newOrder t owner orderid amount price expiration latest =
      newOrder s owner orderid amount price expiration latest := by
    unfold newOrder
    rw [hbook, hfork, hcredited.now]
  refine ⟨?_, ?_, rfl⟩
  · show t.limitOrders.rows ++ [newOrder t owner orderid amount price expiration latest] = _
    rw [hnew, hbook]
  · show t.limitOrders.nextId + 1 = _
    rw [hbook]

theorem Adds.mem (h : Adds s t new) : new ∈ t.limitOrders.rows := by
  rw [h.rows]
  exact List.mem_append_right _ (List.mem_singleton_self new)

theorem int64_bounds {n : Int} (h : fitsInt64 n = true) : n < 9223372036854775808 := by
  unfold fitsInt64 at h
  exact (of_decide_eq_true h).2

/-- What holds of every order before and of the new one. -/
theorem Adds.forall_mem (h : Adds s t new) {P : LimitOrder → Prop}
    (hs : ∀ o ∈ s.limitOrders.rows, P o) (hnew : P new) : ∀ o ∈ t.limitOrders.rows, P o := by
  rw [h.rows]
  intro o ho
  rcases List.mem_append.mp ho with ho | ho
  · exact hs o ho
  · exact (List.mem_singleton.mp ho) ▸ hnew

theorem Adds.ids_nodup (h : Adds s t new) (hids : (ids s).Nodup)
    (hfresh : ∀ o ∈ s.limitOrders.rows, o.id < s.limitOrders.nextId) : (ids t).Nodup := by
  unfold ids
  rw [h.rows, List.map_append, List.nodup_append]
  refine ⟨hids, by simp, ?_⟩
  rintro i hi j hj rfl
  obtain ⟨o, ho, rfl⟩ := List.mem_map.mp hi
  rw [List.map_singleton, List.mem_singleton, h.id] at hj
  have := hfresh o ho
  omega

theorem Adds.fresh (h : Adds s t new)
    (hfresh : ∀ o ∈ s.limitOrders.rows, o.id < s.limitOrders.nextId) :
    ∀ o ∈ t.limitOrders.rows, o.id < t.limitOrders.nextId := by
  rw [h.nextId]
  refine h.forall_mem (fun o ho => ?_) (by rw [h.id]; omega)
  have := hfresh o ho
  omega

/-- The product that `validate` makes sure of is what the order is worth. -/
theorem live_of_times (hp : Proper o.sellPrice) {amount receives : Asset}
    (hfits : fitsInt64 amount.amount = true) (hsymbol : amount.symbol = o.sellPrice.base.symbol)
    (hsale : o.forSale = amount.amount) (hreceives : amount.times o.sellPrice = .ok receives)
    (hpos : 0 < receives.amount) : Live o := by
  unfold fitsInt64 at hfits
  obtain ⟨hlow, hhigh⟩ := of_decide_eq_true hfits
  rw [← hsale] at hlow hhigh
  have hsold : (⟨o.forSale, o.sellPrice.base.symbol⟩ : Asset).times o.sellPrice = .ok receives := by
    rw [hsale, ← hsymbol]
    exact hreceives
  have hnonneg : 0 ≤ o.forSale := by
    by_contra hneg
    exact times_negative hp hlow (not_le.mp hneg) receives hsold
  have hnatural : Natural o.forSale := ⟨hnonneg, hhigh⟩
  unfold Asset.times at hsold
  rw [if_pos rfl, Asset.scale_eq_ok hnatural hp.quote_natural hp.base_natural] at hsold
  obtain ⟨-, hlt, rfl⟩ := hsold
  have hpos : 0 < toInt64 (worth o) := hpos
  have hlt : worth o < 18446744073709551616 := hlt
  have hworth : 0 < worth o ∧ worth o < 9223372036854775808 := by
    unfold toInt64 at hpos
    split at hpos <;> omega
  refine ⟨hp, ⟨lt_of_le_of_ne hnonneg fun hzero => ?_, hhigh⟩, hworth⟩
  have hnothing : worth o = 0 := by
    unfold worth
    rw [← hzero, zero_mul, Int.zero_ediv]
  omega

/-- The order an event creates. -/
def placed (s : Database) : Event → Option LimitOrder
  | .create o => some (newOrder s o.owner o.orderid o.amountToSell ⟨o.amountToSell, o.minToReceive⟩
      o.expiration (hardfork01Time + maxLimitOrderExpiration + s.headBlockId % 86400))
  | .create2 o => some (newOrder s o.owner o.orderid o.amountToSell o.exchangeRate o.expiration
      (hardfork01Time + maxLimitOrderExpiration))
  | _ => none

/-- An order that is placed is worth something. -/
theorem place_adds (s : Database) (e : Event) :
    Returns (place s e) fun t => ∃ new, placed s e = some new ∧ Adds s t new ∧ Live new := by
  cases e with
  | create o =>
      refine .bind_eq fun _ hfits => .bind_eq fun _ hvalid => ?_
      have hbounds := ensure_eq_ok.mp hfits
      simp only [List.all_cons, List.all_nil, Bool.and_true, Bool.and_eq_true] at hbounds
      unfold LimitOrderCreateOperation.validate at hvalid
      obtain ⟨_, _, hvalid⟩ := bind_eq_ok.mp hvalid
      obtain ⟨hmarket, _⟩ := ensure_bind_eq_ok.mp hvalid
      refine .bind (make_spec _ _) fun price hprice => ?_
      obtain ⟨rfl, hsell, hreceive⟩ := hprice
      have hproper : Proper ⟨o.amountToSell, o.minToReceive⟩ :=
        ⟨⟨hsell, int64_bounds hbounds.1⟩, ⟨hreceive, int64_bounds hbounds.2⟩, hmarket⟩
      refine (placeOrder_adds s _ _ _ _ _ _).mono fun t ht => ?_
      refine ⟨_, rfl, ht, hproper, hproper.base, ?_⟩
      unfold worth newOrder
      rw [Int.mul_ediv_cancel_left _ hsell.ne']
      exact hproper.quote
  | create2 o =>
      refine .bind_eq fun _ hfits => .bind_eq fun _ hvalid => ?_
      have hbounds := ensure_eq_ok.mp hfits
      simp only [List.all_cons, List.all_nil, Bool.and_true, Bool.and_eq_true] at hbounds
      unfold LimitOrderCreate2Operation.validate at hvalid
      obtain ⟨_, _, hvalid⟩ := bind_eq_ok.mp hvalid
      obtain ⟨hsymbol, hvalid⟩ := ensure_bind_eq_ok.mp hvalid
      obtain ⟨_, hpos, hvalid⟩ := bind_eq_ok.mp hvalid
      obtain ⟨hmarket, hvalid⟩ := ensure_bind_eq_ok.mp hvalid
      obtain ⟨receives, hreceives, hworth⟩ := bind_eq_ok.mp hvalid
      have hworth := of_decide_eq_true (ensure_eq_ok.mp hworth)
      obtain ⟨hbase, hquote⟩ := validate_spec o.exchangeRate _ hpos
      have hsymbol : o.amountToSell.symbol = o.exchangeRate.base.symbol := of_decide_eq_true hsymbol
      rw [hsymbol] at hmarket
      have hproper : Proper o.exchangeRate :=
        ⟨⟨hbase, int64_bounds hbounds.2.1⟩, ⟨hquote, int64_bounds hbounds.2.2⟩, hmarket⟩
      refine (placeOrder_adds s _ _ _ _ _ _).mono fun t ht => ⟨_, rfl, ht, ?_⟩
      exact live_of_times hproper hbounds.1 hsymbol rfl hreceives hworth
  | cancel o => exact .error
  | expire => exact .error
  | elsewhere t => exact .error

end Gamebank.Market
