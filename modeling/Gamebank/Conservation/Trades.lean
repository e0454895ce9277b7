import Gamebank.Conservation.Entries
import Gamebank.Ledger.Contracts
import Gamebank.Market.Matching

/-!
# Trades, contracts and the books

An order holds what it has for sale. When it is filled it pays, and its seller
receives; the two orders that are matched pay each other.

A contract holds a balance, and moves GBC between that and accounts whenever
it calls the host, so the books are kept at every turn of the interpreter.
-/

namespace Gamebank.Conservation

open Gamebank.Lib Gamebank.Protocol Gamebank.Ledger
open Gamebank.Ledger.Database (require_eq_ok)
open Gamebank.Market (adjustBalance_limitOrders)

variable {s t u : Database} {id : Nat} {o : LimitOrder}

/-! ## Orders -/

/-- Orders do not sell shares, if they did not before. -/
def NoShares (orders orders' : Table LimitOrder) : Prop :=
  (orders.All fun o => o.sellPrice.base.symbol ≠ .gbs) →
    orders'.All fun o => o.sellPrice.base.symbol ≠ .gbs

theorem limitOrders_enters (s : Database) {orders : Table LimitOrder} {d : Entry}
    (hshares : NoShares s.limitOrders orders)
    (h : orders.sum orderHolds = s.limitOrders.sum orderHolds + d) :
    Enters s { s with limitOrders := orders } d := by
  refine ⟨?_, fun hs => ⟨hs.accounts, hshares hs.orders⟩, rfl⟩
  rw [excess, excess, h]
  abel

theorem removeOrder_enters (h : s.limitOrders.find? (fun o => o.id = id) = some o) :
    Enters s (s.removeOrder id) (-orderHolds o) :=
  limitOrders_enters s Table.All.remove ((Table.sum_remove h orderHolds).trans (sub_eq_add_neg _ _))

theorem cancelOrder_keeps (s : Database) (id : Nat) : Returns (s.cancelOrder id) (Keeps s) := by
  unfold Database.cancelOrder
  refine .bind_eq fun o ho => .bind_eq fun t ht => .pure ?_
  have hfound := require_eq_ok.mp ho
  rw [← adjustBalance_limitOrders s o.seller o.amountForSale t ht] at hfound
  have hcredit := adjustBalance_enters s o.seller o.amountForSale t ht
  exact (hcredit.trans (removeOrder_enters hfound)).of_eq (add_neg_cancel _)

/-- The order pays, and its seller receives. -/
theorem fillOrder_enters (s : Database) (id : Nat) (pays receives : Asset) :
    Returns (s.fillOrder id pays receives) fun r =>
      Enters s r.1 (assetEntry receives - assetEntry pays) := by
  unfold Database.fillOrder
  refine .bind_eq fun o ho => .ensure fun hsymbol => .ensure fun _ => .bind_eq fun t ht => ?_
  have hsymbol : o.amountForSale.symbol = pays.symbol := of_decide_eq_true hsymbol
  have hfound := require_eq_ok.mp ho
  rw [← adjustBalance_limitOrders s o.seller receives t ht] at hfound
  have hcredit := adjustBalance_enters s o.seller receives t ht
  refine .ite (fun hall => .pure ?_) fun _ => .ensure fun _ => .ensure fun _ => ?_
  · refine (hcredit.trans (removeOrder_enters hfound)).of_eq ?_
    rw [orderHolds, ← hall, ← sub_eq_add_neg]
  · have hpays : orderHolds { o with forSale := o.forSale - pays.amount } - orderHolds o =
        -assetEntry pays := by
      have hentry : assetEntry pays = entry (bookOf o.amountForSale.symbol) pays.amount := by
        rw [hsymbol]
        rfl
      rw [hentry]
      show entry _ (o.forSale - pays.amount) - entry _ o.forSale = _
      rw [entry_sub]
      exact sub_sub_cancel_left _ _
    have hshares : NoShares t.limitOrders (t.limitOrders.modify (fun o => o.id = id) fun o =>
        { o with forSale := o.forSale - pays.amount }) :=
      fun horders => Table.All.modify horders fun x hx =>
        Table.All.of_find? (P := fun o => o.sellPrice.base.symbol ≠ .gbs) horders hx
    have hleft := limitOrders_enters t hshares (Table.sum_modify hfound
      (fun o => { o with forSale := o.forSale - pays.amount }) orderHolds)
    rw [hpays] at hleft
    have hfilled := hcredit.trans hleft
    rw [← sub_eq_add_neg] at hfilled
    refine .bind_any fun receive => .ite (fun _ => ?_) fun _ => .pure hfilled
    refine .bind (cancelOrder_keeps _ id) fun u hu => .pure ?_
    exact (hfilled.trans hu).of_eq (add_zero _)

theorem matchOrder_keeps (s : Database) (newId oldId : Nat) :
    Returns (s.matchOrder newId oldId) fun r => Keeps s r.1 := by
  unfold Database.matchOrder
  refine .bind_any fun _ => .bind_any fun _ => .ensure fun _ => .ensure fun _ => .ensure fun _ =>
    .bind_any fun ⟨newPays, oldPays⟩ => .ensure fun _ => ?_
  refine .bind (fillOrder_enters s newId newPays oldPays) fun ⟨t, _⟩ ht => ?_
  refine .bind (fillOrder_enters t oldId oldPays newPays) fun ⟨u, _⟩ hu => .ensure fun _ =>
    .pure ?_
  refine (ht.trans hu).of_eq ?_
  abel

theorem matchOrders_keeps (newId : Nat) (limitEnd : Option LimitOrder) (fuel : Nat) (s : Database)
    (limitItr : Option LimitOrder) :
    Returns (Database.matchOrders newId limitEnd fuel s limitItr) (Keeps s) := by
  induction fuel generalizing s limitItr with
  | zero => exact .error
  | succ fuel ih =>
      unfold Database.matchOrders
      refine .ite (fun _ => .ok (.refl s)) fun _ => ?_
      split
      next => exact .error
      next old _ =>
        refine .bind (matchOrder_keeps s newId old.id) fun ⟨t, finished, _⟩ ht =>
          .ite (fun _ => .pure ht) fun _ => ?_
        exact (ih t _).mono fun u hu => ht.trans hu

theorem settleOrder_keeps (s : Database) (id : Nat) (fillOrKill : Bool) :
    Returns (s.settleOrder id fillOrKill) (Keeps s) := by
  unfold Database.settleOrder Database.applyOrder
  refine .bind (?_ : Returns _ fun r => Keeps s r.1) fun ⟨t, _⟩ ht => .ensure fun _ => .pure ht
  refine .bind_any fun o => .bind_any fun _ => .bind_any fun _ => ?_
  exact .bind (matchOrders_keeps id _ _ s _) fun t ht => .pure ht

/-- A balance can be read, so it is not in shares. -/
theorem symbol_of_getBalance {name : AccountName} {symbol : AssetSymbol} {balance : Int}
    (h : s.getBalance name symbol = .ok balance) : symbol ≠ .gbs := by
  rintro rfl
  unfold Database.getBalance at h
  obtain ⟨_, _, h⟩ := bind_eq_ok.mp h
  cases h

/-- What a new order has for sale was the seller's. -/
theorem placeOrder_keeps (s : Database) (owner : AccountName) (orderid : Nat)
    {amountToSell : Asset} {sellPrice : Price} (expiration latest : Nat)
    (hsymbol : sellPrice.base.symbol = amountToSell.symbol) :
    Returns (s.placeOrder owner orderid amountToSell sellPrice expiration latest) (Keeps s) := by
  unfold Database.placeOrder
  refine .ensure fun _ => .ensure fun _ => .bind_eq fun balance hbalance => .ensure fun _ => ?_
  have hshares : sellPrice.base.symbol ≠ .gbs :=
    hsymbol ▸ symbol_of_getBalance hbalance
  refine .bind (adjustBalance_enters s owner (-amountToSell)) fun t ht => .ensure fun _ =>
    .pure ?_
  refine (ht.trans (limitOrders_enters t (fun horders => Table.All.create horders _ hshares)
    (Table.sum_create _ _ _))).of_eq ?_
  rw [orderHolds, LimitOrder.amountForSale, hsymbol, assetEntry_neg]
  exact neg_add_cancel _

theorem limitOrderCreate_keeps (s : Database) (o : LimitOrderCreateOperation) :
    Returns (s.limitOrderCreate o) (Keeps s) := by
  unfold Database.limitOrderCreate Database.placeLimitOrder
  refine .bind (?_ : Returns _ (Keeps s)) fun t ht => ?_
  · refine .bind_eq fun sellPrice hprice => ?_
    obtain ⟨rfl, -⟩ := Market.make_spec _ _ sellPrice hprice
    exact placeOrder_keeps s o.owner o.orderid _ _ rfl
  · exact (settleOrder_keeps t _ o.fillOrKill).mono fun u hu => ht.trans hu

/-- `validate` has compared the asset that is sold with the price. -/
theorem limitOrderCreate2_keeps (s : Database) {o : LimitOrderCreate2Operation}
    (hvalid : o.validate = .ok ()) : Returns (s.limitOrderCreate2 o) (Keeps s) := by
  unfold LimitOrderCreate2Operation.validate at hvalid
  obtain ⟨_, -, hvalid⟩ := bind_eq_ok.mp hvalid
  obtain ⟨hsymbol, -⟩ := ensure_bind_eq_ok.mp hvalid
  unfold Database.limitOrderCreate2 Database.placeLimitOrder2
  refine .bind (placeOrder_keeps s o.owner o.orderid _ _ (of_decide_eq_true hsymbol).symm)
    fun t ht => ?_
  exact (settleOrder_keeps t _ o.fillOrKill).mono fun u hu => ht.trans hu

theorem limitOrderCancel_keeps (s : Database) (o : LimitOrderCancelOperation) :
    Returns (s.limitOrderCancel o) (Keeps s) := by
  unfold Database.limitOrderCancel
  exact .bind_any fun order => cancelOrder_keeps s order.id

theorem clearExpiredOrders_keeps (s : Database) : Returns s.clearExpiredOrders (Keeps s) :=
  entering.drain (fun t o _ => cancelOrder_keeps t o.id) s

/-! ## Contracts -/

theorem contractTransfer_keeps (s : Database) (contractName callerName : AccountName)
    (fromAccount toAccount : String) (num : Int) :
    Returns (s.contractTransfer contractName callerName fromAccount toAccount num) (Keeps s) := by
  unfold Database.contractTransfer
  refine .ensure fun _ => .ite (fun _ => ?_) fun _ => .ite (fun _ => ?_) fun _ => .error
  · refine .bind_any fun _ => .ensure fun _ => .ensure fun _ => ?_
    refine .bind (adjustBalance_enters s _ _) fun t ht => ?_
    refine (adjustContractBalance_enters t _ _).mono fun u hu => (ht.trans hu).of_eq ?_
    rw [assetEntry_neg, neg_add_cancel]
  · refine .bind_any fun _ => .ensure fun _ => ?_
    refine .bind (adjustContractBalance_enters s _ _) fun t ht => ?_
    refine (adjustBalance_enters t _ _).mono fun u hu => (ht.trans hu).of_eq ?_
    rw [assetEntry_neg, neg_add_cancel]

theorem hostCall_keeps (env : Environment) (launch : Launch) (s : Database) (call : HostCall) :
    Returns (s.hostCall env launch call) fun r => Keeps s r.1 := by
  unfold Database.hostCall
  cases call with
  | transfer sender recipient num =>
      exact .bind (contractTransfer_keeps s _ _ sender recipient num) fun t ht => .pure ht
  | getCreator => exact .bind_any fun _ => .pure (.refl s)
  | getData => exact .bind_any fun _ => .pure (.refl s)
  | getUserData userName => exact .bind_any fun _ => .pure (.refl s)
  | getBlockHash blockNum blockCount interval => exact .bind_any fun _ => .pure (.refl s)
  | emit key data => exact .ok (.refl s)
  | headBlockNum => exact .ok (.refl s)
  | isAccount userName => exact .ok (.refl s)

theorem runLua_keeps (env : Environment) (launch : Launch) (limits : Limits) (fuel : Nat)
    (usage : Usage) (s : Database) (state : env.lua.State) :
    Returns (Database.runLua env launch limits fuel usage s state) fun r => Keeps s r.1 := by
  induction fuel generalizing usage s state with
  | zero => exact .error
  | succ fuel ih =>
      unfold Database.runLua
      split
      next next _ => exact .ensure fun _ => ih _ s next
      next memory next _ => exact .ensure fun _ => ih _ s next
      next call resume _ =>
        refine .bind (hostCall_keeps env launch s call) fun ⟨t, reply⟩ ht => ?_
        exact (ih usage t (resume reply)).mono fun r hr => ht.trans hr
      next data _ => exact .ok (.refl s)
      next message _ => exact .error

theorem saveModifiedData_keeps (contractName : AccountName) (s : Database)
    (data : List (String × String)) : Keeps s (Database.saveModifiedData contractName s data) := by
  unfold Database.saveModifiedData
  induction data generalizing s with
  | nil => exact .refl s
  | cons row rest ih =>
      rw [List.foldl_cons]
      refine Keeps.trans ?_ (ih _)
      unfold Database.saveModifiedRow
      dsimp only
      split
      · exact .of_same rfl rfl rfl
      · exact .of_same rfl rfl rfl

theorem execute_keeps (env : Environment) (launch : Launch) (limits : Limits) (fuel : Nat)
    (s : Database) : Returns (s.execute env launch limits fuel) fun r => Keeps s r.1 := by
  unfold Database.execute
  refine .bind (runLua_keeps env launch limits fuel _ s _) fun ⟨t, usage, data⟩ ht => .pure ?_
  exact ht.trans (saveModifiedData_keeps _ t data)

/-- A new contract has nothing. -/
theorem createContract_keeps (s : Database) (op : ContractDeploy) :
    Returns (s.createContract op) (Keeps s) := by
  unfold Database.createContract
  refine .ensure fun _ => .pure (.of_same ?_ rfl rfl)
  rw [excess, Table.sum_create, contractHolds, entry_zero, add_zero]
  rfl

theorem contractDeploy_keeps (env : Environment) (handlers : Handlers) (fuel : Nat) (s : Database)
    (op : ContractDeploy) : Returns (s.contractDeploy env handlers fuel op) (Keeps s) := by
  unfold Database.contractDeploy
  refine .bind_any fun _ => .bind_any fun _ => .ensure fun _ => .ensure fun _ => .ensure fun _ =>
    .ensure fun _ => .bind_any fun _ => .ensure fun _ => .bind_any fun _ => .bind_any fun _ =>
    .bind_any fun _ => ?_
  refine .bind (createContract_keeps s op) fun t ht => ?_
  refine .bind (execute_keeps env _ _ fuel t) fun ⟨u, _⟩ hu => .bind_any fun _ => .pure ?_
  exact ht.trans hu

theorem contractCall_keeps (env : Environment) (handlers : Handlers) (fuel : Nat) (s : Database)
    (op : ContractCall) : Returns (s.contractCall env handlers fuel op) (Keeps s) := by
  unfold Database.contractCall
  refine .bind_any fun _ => .bind_any fun _ => .ensure fun _ => .ensure fun _ => .bind_any fun _ =>
    .bind_any fun _ => .ensure fun _ => .bind_any fun _ => .bind_any fun _ => .bind_any fun _ =>
    .bind_any fun _ => .ensure fun _ => .bind_any fun _ => ?_
  exact .bind (execute_keeps env _ _ fuel s) fun ⟨u, _⟩ hu => .bind_any fun _ => .pure hu

end Gamebank.Conservation
