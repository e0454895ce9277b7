import Gamebank.Lib.Runs
import Gamebank.Market.Orders

/-!
# The book is never crossed

`Book` is the invariant over whole runs: orders on different sides are apart.
A new order is put into the book first and matched then; what `apply_order`
leaves of it is apart from everything on the other side.

`apply_order` starts at `price::max`, so it does not see an order whose price
is above that; `Modest` prices are not.
-/

namespace Gamebank.Market

open Gamebank.Lib Gamebank.Protocol Gamebank.Ledger
open Gamebank.Ledger.Database

variable {s t : Database} {p q : Price} {new : LimitOrder}

/-! ## Orders apart -/

/-- Orders at the two prices on different sides do not trade. -/
def Apart (p q : Price) : Prop := rate p < rate ⟨q.quote, q.base⟩

theorem Apart.symm (h : Apart p q) (hp : Proper p) (hq : Proper q) : Apart q p := by
  unfold Apart at h ⊢
  rw [hp.rate_lt_iff hq.inverse] at h
  rw [hq.rate_lt_iff hp.inverse]
  have h' : p.base.amount * q.base.amount < q.quote.amount * p.quote.amount := h
  show q.base.amount * p.base.amount < p.quote.amount * q.quote.amount
  rwa [mul_comm, mul_comm p.quote.amount]

theorem Opposes.symm (h : Opposes p q) (hp : Proper p) (hq : Proper q) : Opposes q p := by
  unfold Opposes at h ⊢
  rcases hp.symbols with ⟨h1, h2⟩ | ⟨h1, h2⟩ <;> rcases hq.symbols with ⟨h3, h4⟩ | ⟨h3, h4⟩ <;>
    simp_all

/-- The comparison of the loop is that of the two rates. -/
theorem apart_iff_gt (hp : Proper p) (hq : Proper q) (hopp : Opposes p q) :
    Price.gt ⟨p.quote, p.base⟩ q = true ↔ Apart q p := by
  have hside := hopp.side_eq
  rw [hp.inverse.gt_iff hq]
  unfold Apart
  constructor
  · rintro (h | ⟨-, h⟩)
    · omega
    · exact h
  · exact fun h => .inr ⟨hside.symm, h⟩

structure Book (s : Database) : Prop where
  sound : Sound s
  fresh : ∀ o ∈ s.limitOrders.rows, o.id < s.limitOrders.nextId
  modest : ∀ o ∈ s.limitOrders.rows, Modest o.sellPrice
  apart : ∀ a ∈ s.limitOrders.rows, ∀ b ∈ s.limitOrders.rows, Opposes a.sellPrice b.sellPrice →
    Apart a.sellPrice b.sellPrice

theorem book_empty (h : s.limitOrders = .empty) : Book s where
  sound := ⟨by unfold ids; rw [h]; exact List.nodup_nil, by rw [h]; simp [Table.empty]⟩
  fresh := by rw [h]; simp [Table.empty]
  modest := by rw [h]; simp [Table.empty]
  apart := by rw [h]; simp [Table.empty]

/-- What is left of a book is one. -/
theorem Book.thins (h : Book s) (hthins : Thins s t) : Book t where
  sound := hthins.sound h.sound
  fresh := hthins.fresh h.fresh
  modest := by
    intro o ho
    obtain ⟨o', ho', htag⟩ := hthins.exists_old ho
    have hprice : o'.sellPrice = o.sellPrice := congrArg Prod.snd htag
    exact hprice ▸ h.modest o' ho'
  apart := by
    intro a ha b hb
    obtain ⟨a', ha', hatag⟩ := hthins.exists_old ha
    obtain ⟨b', hb', hbtag⟩ := hthins.exists_old hb
    have haprice : a'.sellPrice = a.sellPrice := congrArg Prod.snd hatag
    have hbprice : b'.sellPrice = b.sellPrice := congrArg Prod.snd hbtag
    rw [← haprice, ← hbprice]
    exact h.apart a' ha' b' hb'

/-! ## A new order -/

/-- `t` is `s` with a new order in the book. -/
structure Places (s t : Database) (new : LimitOrder) : Prop where
  rows : t.limitOrders.rows = s.limitOrders.rows ++ [new]
  nextId : t.limitOrders.nextId = s.limitOrders.nextId + 1
  id : new.id = s.limitOrders.nextId
  proper : Proper new.sellPrice
  modest : Modest new.sellPrice

theorem Places.adds (h : Places s t new) : Adds s t new := ⟨h.rows, h.nextId, h.id⟩

theorem Places.sound (h : Places s t new) (hs : Book s) : Sound t where
  ids := h.adds.ids_nodup hs.sound.ids hs.fresh
  proper := h.adds.forall_mem hs.sound.proper h.proper

theorem Places.all_modest (h : Places s t new) (hs : Book s) :
    ∀ o ∈ t.limitOrders.rows, Modest o.sellPrice :=
  h.adds.forall_mem hs.modest h.modest

/-! ## `apply_order` -/

/-- `price::max`, for the other side of a price. -/
def topOf (p : Price) : Price := ⟨⟨Price.maxSatoshis, p.quote.symbol⟩, ⟨1, p.base.symbol⟩⟩

theorem max_eq (hp : Proper p) : Price.max p.quote.symbol p.base.symbol = .ok (topOf p) := by
  have hne : p.quote.symbol ≠ p.base.symbol := by
    rcases hp.symbols with ⟨h1, h2⟩ | ⟨h1, h2⟩ <;> simp [h1, h2]
  unfold Price.max Price.make Price.validate
  simp only [ne_eq, hne, not_false_eq_true, decide_true]
  rfl

theorem proper_topOf (hp : Proper p) : Proper (topOf p) where
  base := by
    show 0 < Price.maxSatoshis ∧ Price.maxSatoshis < 9223372036854775808
    decide
  quote := by
    show (0 : Int) < 1 ∧ (1 : Int) < 9223372036854775808
    decide
  market := hp.inverse.market

/-- The loop starts with everything still before it. -/
theorem reached_start (hs : Sound s) (hmodest : ∀ o ∈ s.limitOrders.rows, Modest o.sellPrice)
    (hp : Proper p) : Reached p s (s.lowerBound (topOf p)) where
  before := by
    intro o ho hopp
    have hseen : (!o.sellPrice.gt (topOf p)) = true := by
      rw [Bool.not_eq_true', ← Bool.not_eq_true, (hs.proper o ho).gt_iff (proper_topOf hp)]
      have hside : side o.sellPrice = side (topOf p) := hopp.side_eq
      rintro (h | ⟨-, h⟩)
      · omega
      · rw [(proper_topOf hp).rate_lt_iff (hs.proper o ho)] at h
        have h' : Price.maxSatoshis * o.sellPrice.quote.amount < o.sellPrice.base.amount * 1 := h
        have := hmodest o ho
        unfold Modest at this
        omega
    obtain ⟨x, hx, -, -, hle⟩ := firstByPrice_spec hs (fun o => !o.sellPrice.gt (topOf p)) ho hseen
    exact ⟨x, hx, hle⟩
  present := fun x hx => List.mem_map_of_mem (firstByPrice_mem hx).1

/-- `apply_order` is the loop from `price::max` to the inverse of the price. -/
theorem applyOrder_eq (hs : Sound s) (hnew : new ∈ s.limitOrders.rows) :
    s.applyOrder new.id =
      matchOrders new.id (s.upperBound ⟨new.sellPrice.quote, new.sellPrice.base⟩)
          (s.limitOrders.rows.length + 1) s (s.lowerBound (topOf new.sellPrice)) >>= fun t =>
        pure (t, (t.limitOrders.find? fun o => o.id = new.id).isNone) := by
  have hp := hs.proper new hnew
  unfold applyOrder
  rw [getOrder_of_mem hs.ids hnew]
  show (new.sellPrice.invert >>= fun maxPrice => _) = _
  rw [hp.invert_eq]
  show (Price.max new.sellPrice.quote.symbol new.sellPrice.base.symbol >>= fun top => _) = _
  rw [max_eq hp]
  rfl

theorem applyOrder_spec (hs : Sound s) (hmodest : ∀ o ∈ s.limitOrders.rows, Modest o.sellPrice)
    (hnew : new ∈ s.limitOrders.rows) :
    Returns (s.applyOrder new.id) fun r => Thins s r.1 ∧
      (new.id ∈ ids r.1 → ∀ o ∈ r.1.limitOrders.rows, Opposes new.sellPrice o.sellPrice →
        Apart o.sellPrice new.sellPrice) := by
  have hp := hs.proper new hnew
  have hend : ∀ e, s.upperBound ⟨new.sellPrice.quote, new.sellPrice.base⟩ = some e →
      e ∈ s.limitOrders.rows ∧
        Price.gt ⟨new.sellPrice.quote, new.sellPrice.base⟩ e.sellPrice = true :=
    fun e he => firstByPrice_mem he
  rw [applyOrder_eq hs hnew]
  refine .bind (matchOrders_spec hs hp hend (.refl s) (List.mem_map_of_mem hnew)
    (reached_start hs hmodest hp)) fun t ht => .pure ⟨ht.1, fun hmem o ho hopp => ?_⟩
  exact (apart_iff_gt hp ((ht.1.sound hs).proper o ho) hopp).mp (ht.2 hmem o ho hopp)

/-- What is left after `apply_order` is a book. -/
theorem Places.settle (h : Places s t new) (hs : Book s) (fillOrKill : Bool) :
    Returns (t.settleOrder s.limitOrders.nextId fillOrKill) Book := by
  have ht := h.sound hs
  unfold settleOrder
  rw [← h.id]
  refine .bind (applyOrder_spec ht (h.all_modest hs) h.adds.mem) fun r hr =>
    .ensure fun _ => .pure ?_
  obtain ⟨hthins, hnew⟩ := hr
  have hsound := hthins.sound ht
  -- an order left is the new one or was in the book before
  have hold :
    ∀ o ∈ r.1.limitOrders.rows, tag o = tag new ∨ ∃ o' ∈ s.limitOrders.rows, tag o' = tag o := by
    intro o ho
    obtain ⟨o', ho', htag⟩ := hthins.exists_old ho
    rw [h.rows] at ho'
    rcases List.mem_append.mp ho' with ho' | ho'
    · exact .inr ⟨o', ho', htag⟩
    · rw [List.mem_singleton] at ho'
      exact .inl (htag.symm.trans (ho' ▸ rfl))
  -- the new order, if it is left, is apart from the other side
  have hnewApart : ∀ a ∈ r.1.limitOrders.rows, tag a = tag new → ∀ b ∈ r.1.limitOrders.rows,
      Opposes a.sellPrice b.sellPrice → Apart b.sellPrice a.sellPrice := by
    intro a ha htag b hb hopp
    have hid : a.id = new.id := congrArg Prod.fst htag
    have hprice : a.sellPrice = new.sellPrice := congrArg Prod.snd htag
    rw [hprice] at hopp ⊢
    exact hnew (hid ▸ List.mem_map_of_mem ha) b hb hopp
  constructor
  · exact hsound
  · exact hthins.fresh (h.adds.fresh hs.fresh)
  · intro o ho
    obtain ⟨o', ho', htag⟩ := hthins.exists_old ho
    have hprice : o'.sellPrice = o.sellPrice := congrArg Prod.snd htag
    exact hprice ▸ h.all_modest hs o' ho'
  · intro a ha b hb hopp
    have hpa := hsound.proper a ha
    have hpb := hsound.proper b hb
    rcases hold a ha with hatag | ⟨a', ha', hatag⟩
    · exact (hnewApart a ha hatag b hb hopp).symm hpb hpa
    · rcases hold b hb with hbtag | ⟨b', hb', hbtag⟩
      · exact hnewApart b hb hbtag a ha (hopp.symm hpa hpb)
      · have haprice : a'.sellPrice = a.sellPrice := congrArg Prod.snd hatag
        have hbprice : b'.sellPrice = b.sellPrice := congrArg Prod.snd hbtag
        rw [← haprice, ← hbprice] at hopp ⊢
        exact hs.apart a' ha' b' hb' hopp

/-! ## Priority -/

/-- The turns of `apply_order` for the order with an id. -/
def applyTurns (s : Database) (id : Nat) : List (Database × LimitOrder) :=
  match s.getOrder id with
  | .error _ => []
  | .ok o => turns id (s.upperBound ⟨o.sellPrice.quote, o.sellPrice.base⟩)
      (s.limitOrders.rows.length + 1) s (s.lowerBound (topOf o.sellPrice))

/-- Opposing orders are touched in the order of `by_price`, each only after
those before it have left the book, and the loop comes to its end. -/
structure Fair (s : Database) (id : Nat) : Prop where
  inOrder : (applyTurns s id).Pairwise fun a b => a.2.before b.2 = true
  afterOthers : ∀ new, s.getOrder id = .ok new → ∀ turn ∈ applyTurns s id,
    ∀ o ∈ s.limitOrders.rows, Opposes new.sellPrice o.sellPrice → o.before turn.2 = true →
      o.id ∉ ids turn.1
  ends : ∀ new, s.getOrder id = .ok new → ∀ fuel > s.limitOrders.rows.length,
    matchOrders id (s.upperBound ⟨new.sellPrice.quote, new.sellPrice.base⟩) (fuel + 1) s
        (s.lowerBound (topOf new.sellPrice)) =
      matchOrders id (s.upperBound ⟨new.sellPrice.quote, new.sellPrice.base⟩) fuel s
        (s.lowerBound (topOf new.sellPrice))

theorem fair_applyOrder (hs : Sound s) (hmodest : ∀ o ∈ s.limitOrders.rows, Modest o.sellPrice)
    (hnew : new ∈ s.limitOrders.rows) : Fair s new.id := by
  have hget := getOrder_of_mem hs.ids hnew
  have hturns : applyTurns s new.id = turns new.id
      (s.upperBound ⟨new.sellPrice.quote, new.sellPrice.base⟩) (s.limitOrders.rows.length + 1) s
      (s.lowerBound (topOf new.sellPrice)) := by
    unfold applyTurns
    rw [hget]
  have hreached := reached_start hs hmodest (hs.proper new hnew)
  have hoffered : Offered new s := List.mem_map_of_mem hnew
  have hproper : ∀ turn ∈ applyTurns s new.id, Proper turn.2.sellPrice := by
    intro turn hturn
    rw [hturns] at hturn
    obtain ⟨hthins, hturn⟩ := turns_reached hs (.refl s) hoffered hreached turn hturn
    exact hturn.proper (hthins.sound hs)
  constructor
  · rw [hturns]
    rw [hturns] at hproper
    exact (turns_rank hs hoffered hreached).2.imp_of_mem fun ha hb hlt =>
      (before_iff (hproper _ ha) (hproper _ hb)).mpr hlt
  · intro x hx turn hturn o ho hopp hbefore
    rw [hget, Except.ok.injEq] at hx
    subst hx
    rw [hturns] at hturn
    obtain ⟨hthins, hturn⟩ := turns_reached hs (.refl s) hoffered hreached turn hturn
    exact hturn.priority hs hthins ho hopp hbefore
  · intro x hx fuel hfuel
    rw [hget, Except.ok.injEq] at hx
    subst hx
    exact matchOrders_fuel hs hoffered hreached hfuel

/-! ## Runs -/

/-- The price of a new order is not above `price::max`. -/
def Moderate (_ : Database) : Event → Prop
  | .create o => Modest ⟨o.amountToSell, o.minToReceive⟩
  | .create2 o => Modest o.exchangeRate
  | _ => True

/-- The claim's orders: whoever sells GBC asks for more than anybody who sells
GBD offers. -/
def Uncrossed (s : Database) : Prop :=
  ∀ a ∈ s.limitOrders.rows, ∀ b ∈ s.limitOrders.rows, a.sellPrice.base.symbol = .gbc →
    b.sellPrice.base.symbol = .gbd → ∃ inverse, b.sellPrice.invert = .ok inverse ∧
      a.sellPrice.lt inverse = true

theorem Book.uncrossed (h : Book s) : Uncrossed s := by
  intro a ha b hb hgbc hgbd
  have hpa := h.sound.proper a ha
  have hpb := h.sound.proper b hb
  have hopp : Opposes a.sellPrice b.sellPrice := by
    unfold Opposes
    rcases hpa.symbols with ⟨-, h2⟩ | ⟨h1, -⟩
    · rw [hgbd, h2]
    · rw [hgbc] at h1
      cases h1
  refine ⟨_, hpb.invert_eq, ?_⟩
  have hside : side a.sellPrice = side ⟨b.sellPrice.quote, b.sellPrice.base⟩ :=
    (hopp.symm hpa hpb).side_eq
  exact (hpa.lt_iff hpb.inverse hside).mpr (h.apart a ha b hb hopp)

/-- A placed order has a proper price. -/
theorem place_spec (s : Database) {e : Event} (hmodest : Moderate s e) :
    Returns (place s e) fun t => ∃ new, Places s t new := by
  refine (place_adds s e).mono fun t ht => ?_
  obtain ⟨new, hnew, hadds, hlive⟩ := ht
  refine ⟨new, hadds.rows, hadds.nextId, hadds.id, hlive.proper, ?_⟩
  cases e with
  | create o =>
      cases hnew
      exact hmodest
  | create2 o =>
      cases hnew
      exact hmodest
  | cancel o => cases hnew
  | expire => cases hnew
  | elsewhere t => cases hnew

theorem Book.perform (h : Book s) {e : Event} (hmodest : Moderate s e) :
    Returns (perform s e) Book := by
  have hcancel : ∀ {s : Database} (id : Nat), Book s → Returns (s.cancelOrder id) Book :=
    fun id hs => (cancelOrder_spec hs.sound.ids).mono fun t ht => hs.thins ht.1
  cases e with
  | create o =>
      rw [perform_create]
      exact .bind (place_spec s hmodest) fun t ht => ht.choose_spec.settle h o.fillOrKill
  | create2 o =>
      rw [perform_create2]
      exact .bind (place_spec s hmodest) fun t ht => ht.choose_spec.settle h o.fillOrKill
  | cancel o => exact .bind_any fun _ => .bind_any fun order => hcancel order.id h
  | expire => exact .drain h fun s o hs _ => hcancel o.id hs
  | elsewhere t =>
      refine .ensure fun hsame => .pure (h.thins (.of_eq ?_))
      exact of_decide_eq_true hsame

theorem Book.step (h : Book s) {e : Event} (hmodest : Moderate s e) : Book (step s e) := by
  have hreturns := h.perform hmodest
  unfold Market.step
  cases hresult : Market.perform s e with
  | error m => exact h
  | ok t => exact hreturns t hresult

/-- In a run whose orders have prices up to `price::max`, the book is never
crossed, and the next such order is matched in the order of price and id. -/
theorem book_never_crossed (s : Database) (events : List Event) (hstart : s.limitOrders = .empty)
    (hmodest : Along step Moderate s events) :
    Uncrossed (events.foldl step s) ∧
      ∀ e t, Moderate (events.foldl step s) e → place (events.foldl step s) e = .ok t →
        Fair t (events.foldl step s).limitOrders.nextId := by
  have hbook : Book (events.foldl step s) :=
    hmodest.keeps (fun _ _ h hmodest => h.step hmodest) (book_empty hstart)
  refine ⟨hbook.uncrossed, fun e t hmoderate hplace => ?_⟩
  obtain ⟨new, hnew⟩ := place_spec _ hmoderate t hplace
  rw [← hnew.id]
  exact fair_applyOrder (hnew.sound hbook) (hnew.all_modest hbook) hnew.adds.mem

/-- An account with GBC and GBD. -/
def trader (name : AccountName) (gbc gbd : Int) : Account :=
  { Account.make name with balance := gbc, gbdBalance := gbd, gbdSecondsLastUpdate := genesisTime }

def floorWith (gbc gbd : Int) : Database :=
  { Database.genesis 0 with accounts := ⟨2, [trader "alice" gbc 0, trader "bobby" 0 gbd]⟩ }

/-- `bobby` buys at two GBD a GBC; `alice` sells what he wants for one and a
half, and more. -/
def smallTrades : List Event :=
  [.create ⟨"bobby", 1, .gbd 200, .gbc 100, false, genesisTime + 60⟩,
    .create ⟨"alice", 1, .gbc 400, .gbd 600, false, genesisTime + 60⟩]

theorem small_trades_not_crossed :
    ((smallTrades.foldl step (floorWith 1000 200)).limitOrders.rows.map LimitOrder.forSale =
        [300]) ∧
      Uncrossed (smallTrades.foldl step (floorWith 1000 200)) := by
  have hbuys : (200 : Int) ≤ Price.maxSatoshis * 100 := by decide
  have hsells : (400 : Int) ≤ Price.maxSatoshis * 600 := by decide
  have hmodest : Along step Moderate (floorWith 1000 200) smallTrades := ⟨hbuys, hsells, trivial⟩
  exact ⟨by decide +kernel, (book_never_crossed (floorWith 1000 200) smallTrades rfl hmodest).1⟩

/-- `alice` offers 2 ^ 62 satoshis of GBC for one of GBD, `bobby` one of GBD
for one of GBC. -/
def hugeTrades : List Event :=
  [.create ⟨"alice", 1, .gbc 4611686018427387904, .gbd 1, false, genesisTime + 60⟩,
    .create ⟨"bobby", 1, .gbd 1, .gbc 1, false, genesisTime + 60⟩]

/-- The offer is above `price::max`, so it is passed over. -/
theorem huge_trades_crossed :
    (floorWith 4611686018427387904 1).limitOrders = .empty ∧
      ¬Uncrossed (hugeTrades.foldl step (floorWith 4611686018427387904 1)) := by
  refine ⟨rfl, fun h => ?_⟩
  obtain ⟨inverse, hinverse, hlt⟩ := h
    ⟨0, genesisTime, genesisTime + 60, "alice", 1, 4611686018427387904,
      ⟨.gbc 4611686018427387904, .gbd 1⟩⟩ (by decide +kernel)
    ⟨1, genesisTime, genesisTime + 60, "bobby", 1, 1, ⟨.gbd 1, .gbc 1⟩⟩ (by decide +kernel) rfl rfl
  cases hinverse
  revert hlt
  decide +kernel

end Gamebank.Market
