import Gamebank.Market.Book

/-!
# Fair fills

A resting order has something to sell, and what it has is worth something at
its price: whatever is placed, matched or cancelled, the book is `Stocked`.

`match` rounds what the sides exchange down, in favour of the side that is
filled completely. So long as the prices of the two orders meet, neither
side sells below its own price. The loop of `apply_order` sees to that by
where it ends; but it starts at `price::max`, and if the book has opposing
orders above that, the end may come before the start (`Straight` rules that
out).
-/

namespace Gamebank.Market

open Gamebank.Lib Gamebank.Protocol Gamebank.Ledger
open Gamebank.Ledger.Database

variable {s t u : Database} {o new old : LimitOrder} {p : Price} {a : Int}

/-! ## The book after a match -/

/-- What never changes of an order: everything but what is left to sell. -/
def terms (o : LimitOrder) : LimitOrder := { o with forSale := 0 }

/-- Ids are unique and not used again, and every order is worth something. -/
structure Stocked (s : Database) : Prop where
  ids : (ids s).Nodup
  fresh : ∀ o ∈ s.limitOrders.rows, o.id < s.limitOrders.nextId
  live : ∀ o ∈ s.limitOrders.rows, Live o

theorem Stocked.sound (h : Stocked s) : Sound s := ⟨h.ids, fun o ho => (h.live o ho).proper⟩

theorem stocked_empty (h : s.limitOrders = .empty) : Stocked s where
  ids := by
    unfold Market.ids
    rw [h]
    exact List.nodup_nil
  fresh := by rw [h]; simp [Table.empty]
  live := by rw [h]; simp [Table.empty]

/-- The book of `t` is what is left of that of `s`, on the same terms, and
still worth something. -/
structure Trims (s t : Database) : Prop where
  thins : Thins s t
  terms : ∀ o ∈ t.limitOrders.rows, ∃ o' ∈ s.limitOrders.rows, terms o = terms o'
  live : ∀ o ∈ t.limitOrders.rows, Live o

namespace Trims

theorem refl (hs : Stocked s) : Trims s s := ⟨.refl s, fun o ho => ⟨o, ho, rfl⟩, hs.live⟩

theorem trans (h : Trims s t) (h' : Trims t u) : Trims s u where
  thins := h.thins.trans h'.thins
  terms := by
    intro o ho
    obtain ⟨o', ho', hterms⟩ := h'.terms o ho
    obtain ⟨o'', ho'', hterms'⟩ := h.terms o' ho'
    exact ⟨o'', ho'', hterms.trans hterms'⟩
  live := h'.live

/-- Orders have gone, and that is all. -/
theorem of_subset (hs : Stocked s) (hthins : Thins s t)
    (hrows : ∀ o ∈ t.limitOrders.rows, o ∈ s.limitOrders.rows) : Trims s t where
  thins := hthins
  terms := fun o ho => ⟨o, hrows o ho, rfl⟩
  live := fun o ho => hs.live o (hrows o ho)

theorem stocked (h : Trims s t) (hs : Stocked s) : Stocked t where
  ids := h.thins.ids.nodup hs.ids
  fresh := h.thins.fresh hs.fresh
  live := h.live

end Trims

theorem cancelOrder_subset (s : Database) (id : Nat) :
    Returns (s.cancelOrder id) fun t => ∀ o ∈ t.limitOrders.rows, o ∈ s.limitOrders.rows := by
  unfold cancelOrder
  refine .bind_any fun o => .bind (adjustBalance_limitOrders s _ _) fun t ht => .pure fun x hx => ?_
  rw [← ht]
  exact List.mem_of_mem_eraseP hx

theorem cancelOrder_trims (hs : Stocked s) (id : Nat) : Returns (s.cancelOrder id) (Trims s) :=
  fun t ht => .of_subset hs (cancelOrder_spec hs.ids t ht).1 (cancelOrder_subset s id t ht)

/-- What `fill_order` leaves of the book: an order is as it was, or it is the
order filled, with something left that is worth something. -/
theorem fillOrder_rows (hids : (ids s).Nodup) (ho : o ∈ s.limitOrders.rows)
    (pays receives : Asset) :
    Returns (s.fillOrder o.id pays receives) fun r => ∀ x ∈ r.1.limitOrders.rows,
      x ∈ s.limitOrders.rows ∨ (x = { o with forSale := o.forSale - pays.amount } ∧
        pays.amount ≠ o.forSale ∧
          ∃ receive, x.amountToReceive = .ok receive ∧ receive.amount ≠ 0) := by
  unfold fillOrder
  refine .bind_eq fun y hy => .ensure fun hsymbol => .ensure fun _ => ?_
  rw [getOrder_of_mem hids ho, Except.ok.injEq] at hy
  subst hy
  refine .bind (adjustBalance_limitOrders s _ _) fun t ht => ?_
  refine .ite (fun _ => .pure fun x hx => .inl ?_) fun hnot => .ensure fun _ => .ensure fun _ => ?_
  · rw [← ht]
    exact List.mem_of_mem_eraseP hx
  · -- the symbols agree, so it is the amounts that differ
    have hamount : pays.amount ≠ o.forSale := by
      intro heq
      apply hnot
      have hsymbol' : o.sellPrice.base.symbol = pays.symbol := of_decide_eq_true hsymbol
      cases pays
      simp only at heq hsymbol'
      rw [heq, ← hsymbol']
      rfl
    have hids' : (ids t).Nodup := by
      unfold ids
      rwa [ht]
    have hrows : ∀ x ∈ (t.limitOrders.modify (fun x => x.id = o.id) fun x =>
        { x with forSale := x.forSale - pays.amount }).rows,
        (x ∈ s.limitOrders.rows ∧ x.id ≠ o.id) ∨
          x = { o with forSale := o.forSale - pays.amount } := by
      intro x hx
      rw [Table.modify, modifyFirst_eq_map hids'] at hx
      obtain ⟨y, hy, rfl⟩ := List.mem_map.mp hx
      rw [ht] at hy
      split
      next hid =>
        rw [List.inj_on_of_nodup_map hids hy ho hid]
        exact .inr rfl
      next hid => exact .inl ⟨hy, hid⟩
    refine .bind_eq fun receive hreceive => .ite (fun _ => ?_) fun hworth => .pure fun x hx => ?_
    · have hmodified := modifyOrder_spec (s := t)
        (t := { t with limitOrders := t.limitOrders.modify (fun x => x.id = o.id) fun x =>
          { x with forSale := x.forSale - pays.amount } }) hids' rfl
      refine .bind_eq fun v hv => .pure fun x hx => ?_
      have hgone := (cancelOrder_spec (hmodified.2.2 ▸ hids') v hv).2.2
      rcases hrows x (cancelOrder_subset _ _ v hv x hx) with ⟨hx', -⟩ | rfl
      · exact .inl hx'
      · exact absurd (List.mem_map_of_mem hx) hgone
    · rcases hrows x hx with ⟨hx', -⟩ | rfl
      · exact .inl hx'
      · exact .inr ⟨rfl, hamount, receive, hreceive, hworth⟩

theorem fillOrder_trims (hs : Stocked s) (ho : o ∈ s.limitOrders.rows) {pays : Asset}
    (receives : Asset) (hpays : 0 ≤ pays.amount ∧ pays.amount ≤ o.forSale) :
    Returns (s.fillOrder o.id pays receives) fun r => Trims s r.1 := by
  intro r hr
  have hrows := fillOrder_rows hs.ids ho pays receives r hr
  refine ⟨(fillOrder_spec hs.ids ho pays receives r hr).1.thins, fun x hx => ?_, fun x hx => ?_⟩
  · rcases hrows x hx with hx' | ⟨rfl, -, -⟩
    · exact ⟨x, hx', rfl⟩
    · exact ⟨o, ho, rfl⟩
  · rcases hrows x hx with hx' | ⟨rfl, hne, receive, hreceive, hworth⟩
    · exact hs.live x hx'
    · exact (hs.live o ho).left (by omega) (by omega) hreceive hworth

/-! ## What a match exchanges -/

/-- A match: what the two orders pay, and the filling of both. -/
structure Match (s : Database) (new old : LimitOrder) (newPays oldPays : Asset)
    (r : Database × Bool × Bool) : Prop where
  amounts : tradeAmounts new.amountForSale old.amountForSale old.sellPrice = .ok (newPays, oldPays)
  fills : ∃ t, s.fillOrder new.id newPays oldPays = .ok (t, r.2.1) ∧
    t.fillOrder old.id oldPays newPays = .ok (r.1, r.2.2)

theorem matchOrder_cases (hnew : s.getOrder new.id = .ok new) (hold : s.getOrder old.id = .ok old) :
    Returns (s.matchOrder new.id old.id) fun r =>
      ∃ newPays oldPays, Match s new old newPays oldPays r := by
  unfold matchOrder
  rw [hnew, hold]
  refine .bind (Q := (· = new)) (.ok rfl) fun x hx => ?_
  refine .bind (Q := (· = old)) (.ok rfl) fun y hy => ?_
  subst hx hy
  refine .ensure fun _ => .ensure fun _ => .ensure fun _ => ?_
  refine .bind_eq fun pays hpays => .ensure fun _ => ?_
  refine .bind_eq fun r hr => .bind_eq fun r' hr' => .ensure fun _ => .pure ?_
  exact ⟨pays.1, pays.2, hpays, r.1, hr, hr'⟩

/-- What the two orders pay at the price of the old one: the new one all it
has, or the old one. -/
theorem tradeAmounts_cases (hnew : Live new) (hold : Live old) {pays : Asset × Asset}
    (hpays : tradeAmounts new.amountForSale old.amountForSale old.sellPrice = .ok pays) :
    Opposes new.sellPrice old.sellPrice ∧
      ((new.forSale ≤ worth old ∧ pays = (new.amountForSale,
          ⟨new.forSale * old.sellPrice.base.amount / old.sellPrice.quote.amount,
            old.sellPrice.base.symbol⟩)) ∨
        (worth old < new.forSale ∧
          pays = (⟨worth old, new.sellPrice.base.symbol⟩, old.amountForSale))) := by
  have hworth : old.amountForSale.times old.sellPrice = _ := hold.amountToReceive_eq
  unfold tradeAmounts at hpays
  rw [hworth] at hpays
  obtain ⟨_, hsame, hpays⟩ := bind_eq_ok.mp hpays
  cases hsame
  obtain ⟨hsymbol, hpays⟩ := ensure_bind_eq_ok.mp hpays
  have hsymbol : new.sellPrice.base.symbol = old.sellPrice.quote.symbol := of_decide_eq_true hsymbol
  have hopp : Opposes old.sellPrice new.sellPrice := hsymbol
  refine ⟨hopp.symm hold.proper hnew.proper, ?_⟩
  split at hpays
  next hle =>
    have hle : new.forSale ≤ worth old := hle
    have hback :
        new.forSale * old.sellPrice.base.amount / old.sellPrice.quote.amount ≤ old.forSale :=
      turned_back_le hold.proper.quote.1 hold.proper.base.1 hle
    have htimes : new.amountForSale.times old.sellPrice =
        .ok ⟨new.forSale * old.sellPrice.base.amount / old.sellPrice.quote.amount,
          old.sellPrice.base.symbol⟩ := by
      unfold LimitOrder.amountForSale
      rw [hsymbol]
      exact times_quote hold.proper hnew.natural (lt_of_le_of_lt hback hold.forSale.2)
    rw [htimes] at hpays
    cases hpays
    exact .inl ⟨hle, rfl⟩
  next hlt =>
    have hlt : ¬new.forSale ≤ worth old := hlt
    cases hpays
    rw [← hsymbol]
    exact .inr ⟨not_le.mp hlt, rfl⟩

/-- Nobody pays more than he has. -/
theorem tradeAmounts_bounds (hnew : Live new) (hold : Live old) {pays : Asset × Asset}
    (hpays : tradeAmounts new.amountForSale old.amountForSale old.sellPrice = .ok pays) :
    (0 ≤ pays.1.amount ∧ pays.1.amount ≤ new.forSale) ∧
      (0 ≤ pays.2.amount ∧ pays.2.amount ≤ old.forSale) := by
  obtain ⟨-, ⟨hle, rfl⟩ | ⟨hlt, rfl⟩⟩ := tradeAmounts_cases hnew hold hpays
  · have hnonneg := mul_nonneg hnew.forSale.1.le hold.proper.base.1.le
    exact ⟨⟨hnew.forSale.1.le, le_refl _⟩, Int.ediv_nonneg hnonneg hold.proper.quote.1.le,
      turned_back_le hold.proper.quote.1 hold.proper.base.1 hle⟩
  · exact ⟨⟨hold.worth.1.le, hlt.le⟩, hold.forSale.1.le, le_refl _⟩

/-- Orders on different sides are different. -/
theorem Opposes.id_ne (h : Opposes new.sellPrice old.sellPrice) (hs : Sound s)
    (hnew : new ∈ s.limitOrders.rows) (hold : old ∈ s.limitOrders.rows) : old.id ≠ new.id := by
  intro heq
  rw [List.inj_on_of_nodup_map hs.ids hold hnew heq] at h
  have hsame : new.sellPrice.base.symbol = new.sellPrice.quote.symbol := h
  rcases (hs.proper new hnew).symbols with ⟨h1, h2⟩ | ⟨h1, h2⟩ <;> simp [h1, h2] at hsame

/-- The two orders of a match. -/
theorem matchOrder_found (s : Database) (newId oldId : Nat) :
    Returns (s.matchOrder newId oldId) fun r => ∃ new old newPays oldPays,
      s.getOrder newId = .ok new ∧ s.getOrder oldId = .ok old ∧
        Match s new old newPays oldPays r := by
  intro r hr
  have hfound : ∃ new old, s.getOrder newId = .ok new ∧ s.getOrder oldId = .ok old := by
    unfold matchOrder at hr
    obtain ⟨new, hnew, hr⟩ := bind_eq_ok.mp hr
    obtain ⟨old, hold, -⟩ := bind_eq_ok.mp hr
    exact ⟨new, old, hnew, hold⟩
  obtain ⟨new, old, hnew, hold⟩ := hfound
  obtain ⟨-, rfl⟩ := getOrder_mem hnew
  obtain ⟨-, rfl⟩ := getOrder_mem hold
  obtain ⟨newPays, oldPays, hmatch⟩ := matchOrder_cases hnew hold r hr
  exact ⟨new, old, newPays, oldPays, hnew, hold, hmatch⟩

theorem matchOrder_trims (hs : Stocked s) (newId oldId : Nat) :
    Returns (s.matchOrder newId oldId) fun r => Trims s r.1 := by
  intro r hr
  obtain ⟨new, old, newPays, oldPays, hnew, hold, hpays, t, hfirst, hsecond⟩ :=
    matchOrder_found s newId oldId r hr
  obtain ⟨hnewMem, rfl⟩ := getOrder_mem hnew
  obtain ⟨holdMem, rfl⟩ := getOrder_mem hold
  have hnewLive := hs.live new hnewMem
  have holdLive := hs.live old holdMem
  obtain ⟨hnewPays, holdPays⟩ := tradeAmounts_bounds hnewLive holdLive hpays
  have hne := (tradeAmounts_cases hnewLive holdLive hpays).1.id_ne hs.sound hnewMem holdMem
  have htrims : Trims s t := fillOrder_trims hs hnewMem oldPays hnewPays _ hfirst
  have hold' : old ∈ t.limitOrders.rows :=
    (fillOrder_spec hs.ids hnewMem newPays oldPays _ hfirst).1.spares old holdMem hne
  exact htrims.trans (fillOrder_trims (htrims.stocked hs) hold' newPays holdPays _ hsecond)

theorem matchOrders_trims {limitItr limitEnd : Option LimitOrder} {newId fuel : Nat}
    (hs : Stocked s) :
    Returns (matchOrders newId limitEnd fuel s limitItr) (Trims s) := by
  induction fuel generalizing s limitItr with
  | zero => exact .error
  | succ fuel ih =>
      unfold matchOrders
      refine .ite (fun _ => .ok (.refl hs)) fun _ => ?_
      cases limitItr with
      | none => exact .error
      | some x =>
          refine .bind (matchOrder_trims hs newId x.id) fun r hr => ?_
          refine .ite (fun _ => .pure hr) fun _ => ?_
          exact (ih (hr.stocked hs)).mono fun t ht => hr.trans ht

theorem settleOrder_trims (hs : Stocked s) (id : Nat) (fillOrKill : Bool) :
    Returns (s.settleOrder id fillOrKill) (Trims s) := by
  unfold settleOrder applyOrder
  refine .bind (Q := fun r => Trims s r.1) ?_ fun r hr => .ensure fun _ => .pure hr
  refine .bind_any fun o => .bind_any fun m => .bind_any fun top => ?_
  exact .bind (matchOrders_trims hs) fun t ht => .pure ht

/-! ## A match that is fair -/

/-- The price of the new order reaches that of the old one. -/
def Meets (p q : Price) : Prop := p.quote.amount * q.quote.amount ≤ q.base.amount * p.base.amount

theorem meets_of_not_gt {q : Price} (hp : Proper p) (hq : Proper q) (hopp : Opposes p q)
    (hgt : ¬Price.gt ⟨p.quote, p.base⟩ q = true) : Meets p q := by
  rw [apart_iff_gt hp hq hopp] at hgt
  unfold Apart at hgt
  rw [hq.rate_lt_iff hp.inverse] at hgt
  have hle : p.quote.amount * q.quote.amount ≤ q.base.amount * p.base.amount := not_lt.mp hgt
  exact hle

/-- A better price is worth more. -/
theorem ediv_le_ediv_of_cross {n d n' d' : Int} (ha : 0 ≤ a) (hd : 0 < d) (hd' : 0 < d')
    (hcross : n * d' ≤ n' * d) : a * n / d ≤ a * n' / d' := by
  rw [Int.le_ediv_iff_mul_le hd']
  refine le_of_mul_le_mul_right ?_ hd
  calc a * n / d * d' * d = a * n / d * d * d' := mul_right_comm _ _ _
    _ ≤ a * n * d' := mul_le_mul_of_nonneg_right (Int.ediv_mul_le _ hd.ne') hd'.le
    _ = a * (n * d') := mul_assoc _ _ _
    _ ≤ a * (n' * d) := mul_le_mul_of_nonneg_left hcross ha
    _ = a * n' * d := (mul_assoc _ _ _).symm

/-- An order pays something, no more than it has, and receives something, no
less than its own price asks for. -/
structure Sells (o : LimitOrder) (pays receives : Asset) : Prop where
  paid : 0 < pays.amount ∧ pays.amount ≤ o.forSale
  received : 0 < receives.amount
  price : pays.amount * o.sellPrice.quote.amount / o.sellPrice.base.amount ≤ receives.amount

/-- What `match` exchanges when the prices meet. -/
theorem tradeAmounts_sells (hnew : Live new) (hold : Live old)
    (hmeets : Meets new.sellPrice old.sellPrice) {pays : Asset × Asset}
    (hpays : tradeAmounts new.amountForSale old.amountForSale old.sellPrice = .ok pays) :
    Sells new pays.1 pays.2 ∧ Sells old pays.2 pays.1 := by
  have hbetter : ∀ {a : Int}, 0 ≤ a → a * new.sellPrice.quote.amount / new.sellPrice.base.amount ≤
      a * old.sellPrice.base.amount / old.sellPrice.quote.amount :=
    fun ha => ediv_le_ediv_of_cross ha hnew.proper.base.1 hold.proper.quote.1 hmeets
  obtain ⟨hnewPays, holdPays⟩ := tradeAmounts_bounds hnew hold hpays
  obtain ⟨-, ⟨hle, rfl⟩ | ⟨hlt, rfl⟩⟩ := tradeAmounts_cases hnew hold hpays
  · -- the new order pays all it has: what it gets back was rounded down
    have hreceives := hbetter hnew.forSale.1.le
    have hpos : 0 < new.forSale * old.sellPrice.base.amount / old.sellPrice.quote.amount :=
      lt_of_lt_of_le hnew.worth.1 hreceives
    exact ⟨⟨⟨hnew.forSale.1, hnewPays.2⟩, hpos, hreceives⟩, ⟨hpos, holdPays.2⟩, hnew.forSale.1,
      turned_back_le hold.proper.base.1 hold.proper.quote.1 (le_refl _)⟩
  · -- the old order pays all it has: what it is worth was rounded down
    have hback : worth old * old.sellPrice.base.amount / old.sellPrice.quote.amount ≤ old.forSale :=
      turned_back_le hold.proper.quote.1 hold.proper.base.1 (le_refl _)
    exact ⟨⟨⟨hold.worth.1, hnewPays.2⟩, hold.forSale.1, (hbetter hold.worth.1.le).trans hback⟩,
      ⟨hold.forSale.1, le_refl _⟩, hold.worth.1, le_refl _⟩

/-- Each of the two orders is filled with what the other one pays, sells as
it should, and one of them leaves the book. -/
structure FairMatch (s : Database) (newId oldId : Nat) (r : Database × Bool × Bool) : Prop where
  fills : ∃ new old newPays oldPays t, s.getOrder newId = .ok new ∧ s.getOrder oldId = .ok old ∧
    s.fillOrder newId newPays oldPays = .ok (t, r.2.1) ∧
    t.fillOrder oldId oldPays newPays = .ok (r.1, r.2.2) ∧
    Sells new newPays oldPays ∧ Sells old oldPays newPays
  leaves : (r.2.1 = true ∧ newId ∉ ids r.1) ∨ (r.2.2 = true ∧ oldId ∉ ids r.1)

theorem matchOrder_fair (hs : Stocked s) (hnew : new ∈ s.limitOrders.rows)
    (hold : old ∈ s.limitOrders.rows)
    (hgt : ¬Price.gt ⟨new.sellPrice.quote, new.sellPrice.base⟩ old.sellPrice = true) :
    Returns (s.matchOrder new.id old.id) (FairMatch s new.id old.id) := by
  intro r hr
  have hnewLive := hs.live new hnew
  have holdLive := hs.live old hold
  have hgetNew := getOrder_of_mem hs.ids hnew
  have hgetOld := getOrder_of_mem hs.ids hold
  obtain ⟨newPays, oldPays, hpays, t, hfirst, hsecond⟩ := matchOrder_cases hgetNew hgetOld r hr
  have hcases := tradeAmounts_cases hnewLive holdLive hpays
  have hmeets := meets_of_not_gt hnewLive.proper holdLive.proper hcases.1 hgt
  obtain ⟨hsells, hsells'⟩ := tradeAmounts_sells hnewLive holdLive hmeets hpays
  refine ⟨⟨new, old, newPays, oldPays, t, hgetNew, hgetOld, hfirst, hsecond, hsells, hsells'⟩, ?_⟩
  have hmatched := matchOrder_spec hs.ids hnew hold holdLive.proper r hr
  have hfilled := fillOrder_spec hs.ids hnew newPays oldPays _ hfirst
  have hold' : old ∈ t.limitOrders.rows :=
    hfilled.1.spares old hold (hcases.1.id_ne hs.sound hnew hold)
  have hfilled' := fillOrder_spec (hfilled.1.thins.ids.nodup hs.ids) hold' oldPays newPays _ hsecond
  rcases hcases.2 with ⟨-, hall⟩ | ⟨-, hall⟩
  · have hflag : r.2.1 = true := hfilled.2 (congrArg Prod.fst hall)
    exact .inl ⟨hflag, hmatched.finished_iff.mp hflag⟩
  · have hflag : r.2.2 = true := hfilled'.2 (congrArg Prod.snd hall)
    exact .inr ⟨hflag, hfilled'.1.gone_iff.mp hflag⟩

/-! ## The range of the loop -/

/-- The loop has not gone past its end. -/
structure Within (limitEnd : Option LimitOrder) (s : Database) (limitItr : Option LimitOrder) :
    Prop where
  present : ∀ x, limitItr = some x → tag x ∈ tags s
  bounded : ∀ e, limitEnd = some e → tag e ∈ tags s ∧ ∃ x, limitItr = some x ∧ rank x ≤ rank e

theorem Within.next {limitEnd : Option LimitOrder} {x : LimitOrder} {newId : Nat}
    (h : Within limitEnd s (some x)) (hs : Sound s)
    (hid : (some x).map LimitOrder.id ≠ limitEnd.map LimitOrder.id)
    (hm : Matched newId x.id s t false) : Within limitEnd t (s.nextByPrice x) := by
  constructor
  · exact fun y hy => hm.present_next hs (h.present x rfl) hy
  · intro e he
    subst he
    obtain ⟨hetag, y, hy, hle⟩ := h.bounded e rfl
    cases hy
    have hne : e.id ≠ x.id := fun heq => hid (congrArg some heq.symm)
    obtain ⟨x', hx', hxtag⟩ := List.mem_map.mp (h.present x rfl)
    have hxprice : x'.sellPrice = x.sellPrice := congrArg Prod.snd hxtag
    have hproper : Proper x.sellPrice := hxprice ▸ hs.proper x' hx'
    obtain ⟨e', he', hetag'⟩ := List.mem_map.mp hetag
    have hlt : rank x < rank e' := by
      rw [rank_congr hetag']
      exact lt_of_le_of_ne hle (rank_ne hne.symm)
    obtain ⟨y, hy, -, -, hrank⟩ := firstByPrice_spec hs (fun y => x.before y) he'
      ((before_iff hproper (hs.proper e' he')).mpr hlt)
    exact ⟨hm.keeps_tag hs hetag hne, y, hy, rank_congr hetag' ▸ hrank⟩

/-- No opposing order is above `price::max` and below what the new one asks. -/
def InRange (s : Database) (p : Price) : Prop :=
  ∀ o ∈ s.limitOrders.rows, Opposes p o.sellPrice → o.sellPrice.gt (topOf p) = true →
    Price.gt ⟨p.quote, p.base⟩ o.sellPrice = false

/-- The loop does not start past its end. -/
theorem within_start (hs : Sound s) (hp : Proper p) (hrange : InRange s p) :
    Within (s.upperBound ⟨p.quote, p.base⟩) s (s.lowerBound (topOf p)) where
  present := fun x hx => List.mem_map_of_mem (firstByPrice_mem hx).1
  bounded := by
    intro e he
    obtain ⟨hmem, hgt⟩ := firstByPrice_mem he
    have hseen : (!e.sellPrice.gt (topOf p)) = true := by
      rw [Bool.not_eq_true', ← Bool.not_eq_true]
      intro htop
      have hproper := hs.proper e hmem
      by_cases hopp : Opposes p e.sellPrice
      · rw [hrange e hmem hopp htop] at hgt
        cases hgt
      · -- the end is then on the side of the new order, which comes later
        rw [hproper.gt_iff (proper_topOf hp)] at htop
        rw [hp.inverse.gt_iff hproper] at hgt
        have hside : side (topOf p) = side ⟨p.quote, p.base⟩ := rfl
        have hne : side e.sellPrice ≠ side ⟨p.quote, p.base⟩ := by
          intro heq
          apply hopp
          unfold Opposes
          unfold side at heq
          rcases hp.symbols with ⟨h1, h2⟩ | ⟨h1, h2⟩ <;>
            rcases hproper.symbols with ⟨h3, h4⟩ | ⟨h3, h4⟩ <;> simp_all
        omega
    obtain ⟨x, hx, -, -, hle⟩ :=
      firstByPrice_spec hs (fun o => !o.sellPrice.gt (topOf p)) hmem hseen
    exact ⟨List.mem_map_of_mem hmem, x, hx, hle⟩

/-- Before the end of the range, prices are reached. -/
theorem Within.not_gt {s₀ : Database} {x : LimitOrder} (hs₀ : Sound s₀) (hthins : Thins s₀ s)
    (h : Within (s₀.upperBound ⟨p.quote, p.base⟩) s (some x))
    (hid : (some x).map LimitOrder.id ≠ (s₀.upperBound ⟨p.quote, p.base⟩).map LimitOrder.id) :
    ¬Price.gt ⟨p.quote, p.base⟩ x.sellPrice = true := by
  intro hgt
  obtain ⟨x', hx', htag⟩ := List.mem_map.mp (hthins.tags.subset (h.present x rfl))
  have hprice : x'.sellPrice = x.sellPrice := congrArg Prod.snd htag
  obtain ⟨e, he, -, -, hle⟩ :=
    firstByPrice_spec hs₀ (fun o => Price.gt ⟨p.quote, p.base⟩ o.sellPrice) hx' (hprice ▸ hgt)
  have he' : s₀.upperBound ⟨p.quote, p.base⟩ = some e := he
  obtain ⟨-, y, hy, hle'⟩ := h.bounded e he'
  cases hy
  rw [rank_congr htag] at hle
  refine rank_ne (fun heq => hid ?_) (le_antisymm hle' hle)
  rw [he']
  exact congrArg some heq

theorem Adds.stocked (h : Adds s t new) (hs : Stocked s) (hnew : Live new) : Stocked t where
  ids := h.ids_nodup hs.ids hs.fresh
  fresh := h.fresh hs.fresh
  live := h.forall_mem hs.live hnew

/-! ## Runs -/

theorem clearExpiredOrders_trims (hs : Stocked s) : Returns s.clearExpiredOrders (Trims s) := by
  refine .drain (.refl hs) fun t o ht _ => ?_
  exact (cancelOrder_trims (ht.stocked hs) o.id).mono fun u hu => ht.trans hu

/-- What an event does to the book: it is trimmed, after an order has been
added or as it was. -/
theorem perform_trims (hs : Stocked s) (e : Event) : Returns (perform s e) fun t =>
    Trims s t ∨ ∃ u new, Adds s u new ∧ Live new ∧ Trims u t := by
  have hsettle : ∀ e id fillOrKill, Returns (place s e >>= fun t => t.settleOrder id fillOrKill)
      fun t => ∃ u new, Adds s u new ∧ Live new ∧ Trims u t := by
    intro e id fillOrKill
    refine .bind (place_adds s e) fun u hu => ?_
    obtain ⟨new, -, hadds, hlive⟩ := hu
    exact (settleOrder_trims (hadds.stocked hs hlive) id fillOrKill).mono fun t ht =>
      ⟨u, new, hadds, hlive, ht⟩
  cases e with
  | create o =>
      rw [perform_create]
      exact (hsettle _ _ _).mono fun t ht => .inr ht
  | create2 o =>
      rw [perform_create2]
      exact (hsettle _ _ _).mono fun t ht => .inr ht
  | cancel o =>
      exact .bind_any fun _ => .bind_any fun order =>
        (cancelOrder_trims hs order.id).mono fun t ht => .inl ht
  | expire => exact (clearExpiredOrders_trims hs).mono fun t ht => .inl ht
  | elsewhere t =>
      refine .ensure fun hsame => .pure (.inl ?_)
      have hbook : t.limitOrders = s.limitOrders := of_decide_eq_true hsame
      refine .of_subset hs (.of_eq hbook) fun o ho => ?_
      rw [← hbook]
      exact ho

theorem Stocked.perform (hs : Stocked s) (e : Event) : Returns (perform s e) Stocked := by
  refine (perform_trims hs e).mono fun t ht => ?_
  rcases ht with htrims | ⟨u, new, hadds, hlive, htrims⟩
  · exact htrims.stocked hs
  · exact htrims.stocked (hadds.stocked hs hlive)

theorem Stocked.step (hs : Stocked s) (e : Event) : Stocked (step s e) := by
  have hreturns := hs.perform e
  unfold Market.step
  cases hresult : Market.perform s e with
  | error m => exact hs
  | ok t => exact hreturns t hresult

theorem Stocked.run (hs : Stocked s) (events : List Event) :
    Stocked (events.foldl Market.step s) := by
  induction events generalizing s with
  | nil => exact hs
  | cons e rest ih => exact ih (hs.step e)

/-- The range of `apply_order` is in order for what the event places. -/
def Straight (s : Database) (e : Event) : Prop :=
  ∀ new, placed s e = some new → InRange s new.sellPrice

/-- The matches of `apply_order` for an order that is placed are fair. -/
def FairFills (s : Database) (e : Event) : Prop :=
  ∀ t, place s e = .ok t → ∀ turn ∈ applyTurns t s.limitOrders.nextId, ∀ r,
    turn.1.matchOrder s.limitOrders.nextId turn.2.id = .ok r →
      FairMatch turn.1 s.limitOrders.nextId turn.2.id r

theorem Adds.inRange (h : Adds s t new) (hp : Proper new.sellPrice)
    (hrange : InRange s new.sellPrice) : InRange t new.sellPrice := by
  intro o ho hopp
  rw [h.rows] at ho
  rcases List.mem_append.mp ho with ho | ho
  · exact hrange o ho hopp
  · rw [List.mem_singleton.mp ho] at hopp
    have hsame : new.sellPrice.base.symbol = new.sellPrice.quote.symbol := hopp
    rcases hp.symbols with ⟨h1, h2⟩ | ⟨h1, h2⟩ <;> simp [h1, h2] at hsame

/-- The head of the loop for `new`, which started in `s₀`. -/
structure Walk (s₀ : Database) (new : LimitOrder) (s : Database) (limitItr : Option LimitOrder) :
    Prop where
  trims : Trims s₀ s
  offered : Offered new s
  within : Within (s₀.upperBound ⟨new.sellPrice.quote, new.sellPrice.base⟩) s limitItr

theorem Walk.next {s₀ : Database} {x : LimitOrder} (h : Walk s₀ new s (some x)) (hs₀ : Stocked s₀)
    (hid : (some x).map LimitOrder.id ≠
      (s₀.upperBound ⟨new.sellPrice.quote, new.sellPrice.base⟩).map LimitOrder.id)
    {oldFilled : Bool} (hmatch : s.matchOrder new.id x.id = .ok (t, false, oldFilled)) :
    Walk s₀ new t (s.nextByPrice x) := by
  have hs := h.trims.stocked hs₀
  have hm : Matched new.id x.id s t false :=
    h.offered.matchOrder hs.sound (h.within.present x rfl) _ hmatch
  exact ⟨h.trims.trans (matchOrder_trims hs new.id x.id _ hmatch), h.offered.after hs.sound hm,
    h.within.next hs.sound hid hm⟩

/-- A turn of the loop. -/
theorem Walk.fair {s₀ : Database} {x : LimitOrder} (h : Walk s₀ new s (some x)) (hs₀ : Stocked s₀)
    (hid : (some x).map LimitOrder.id ≠
      (s₀.upperBound ⟨new.sellPrice.quote, new.sellPrice.base⟩).map LimitOrder.id) :
    Returns (s.matchOrder new.id x.id) (FairMatch s new.id x.id) := by
  obtain ⟨new', hnew, hnewTag⟩ := List.mem_map.mp h.offered
  obtain ⟨old, hold, holdTag⟩ := List.mem_map.mp (h.within.present x rfl)
  have hnewId : new'.id = new.id := congrArg Prod.fst hnewTag
  have hnewPrice : new'.sellPrice = new.sellPrice := congrArg Prod.snd hnewTag
  have holdId : old.id = x.id := congrArg Prod.fst holdTag
  have holdPrice : old.sellPrice = x.sellPrice := congrArg Prod.snd holdTag
  have hgt := h.within.not_gt hs₀.sound h.trims.thins hid
  rw [← hnewPrice, ← holdPrice] at hgt
  rw [← hnewId, ← holdId]
  exact matchOrder_fair (h.trims.stocked hs₀) hnew hold hgt

theorem Stocked.fairFills (hs : Stocked s) {e : Event} (hstraight : Straight s e) :
    FairFills s e := by
  intro t ht
  obtain ⟨new, hplaced, hadds, hlive⟩ := place_adds s e t ht
  have hs' := hadds.stocked hs hlive
  have hstart : Walk t new t (t.lowerBound (topOf new.sellPrice)) :=
    ⟨.refl hs', List.mem_map_of_mem hadds.mem,
      within_start hs'.sound hlive.proper (hadds.inRange hlive.proper (hstraight new hplaced))⟩
  rw [← hadds.id]
  intro turn hturn r hr
  unfold applyTurns at hturn
  rw [getOrder_of_mem hs'.ids hadds.mem] at hturn
  obtain ⟨hwalk, hid⟩ := turns_keep (I := Walk t new)
    (fun u x hwalk hid v oldFilled hmatch => hwalk.next hs' hid hmatch) hstart turn hturn
  exact hwalk.fair hs' hid r hr

/-- Whatever has happened, resting orders are worth something; and the next
order is matched fairly if no opposing one lies above `price::max` and below
what it asks. -/
theorem fills_fair (s : Database) (events : List Event) (hstart : s.limitOrders = .empty) :
    (∀ o ∈ (events.foldl step s).limitOrders.rows, 0 < o.forSale ∧
      ∃ receive, o.amountToReceive = .ok receive ∧ 1 ≤ receive.amount) ∧
      ∀ e, Straight (events.foldl step s) e → FairFills (events.foldl step s) e := by
  have hs := (stocked_empty hstart).run events
  refine ⟨fun o ho => ?_, fun e hstraight => hs.fairFills hstraight⟩
  have hlive := hs.live o ho
  exact ⟨hlive.forSale.1, _, hlive.amountToReceive_eq, hlive.worth.1⟩

/-- `bobby` buys at two GBD a GBC. -/
def bids : List Event := [.create ⟨"bobby", 1, .gbd 200, .gbc 100, false, genesisTime + 60⟩]

/-- `alice` sells for one and a half. -/
def sale : Event := .create ⟨"alice", 1, .gbc 400, .gbd 600, false, genesisTime + 60⟩

theorem sale_fair : ∃ t turn r, place (bids.foldl step (floorWith 1000 200)) sale = .ok t ∧
    turn ∈ applyTurns t 1 ∧ turn.1.matchOrder 1 turn.2.id = .ok r ∧
      FairMatch turn.1 1 turn.2.id r := by
  have hnext : (bids.foldl step (floorWith 1000 200)).limitOrders.nextId = 1 := by decide +kernel
  have hfair : FairFills (bids.foldl step (floorWith 1000 200)) sale := by
    refine (fills_fair (floorWith 1000 200) bids rfl).2 sale ?_
    -- the order of `bobby` is not above `price::max`
    intro new hnew o ho hopp htop
    have hbelow : ((bids.foldl step (floorWith 1000 200)).limitOrders.rows.all
        fun o => !o.sellPrice.gt (topOf ⟨.gbc 400, .gbd 600⟩)) = true := by decide +kernel
    have hnot := List.all_eq_true.mp hbelow o ho
    cases hnew
    have htop : o.sellPrice.gt (topOf ⟨.gbc 400, .gbd 600⟩) = true := htop
    rw [htop] at hnot
    cases hnot
  obtain ⟨t, ht, hturn⟩ := exists_of_any (x := place (bids.foldl step (floorWith 1000 200)) sale)
    (P := fun t => (applyTurns t 1).any fun turn =>
      (turn.1.matchOrder 1 turn.2.id).toOption.any fun _ => true) (by decide +kernel)
  obtain ⟨turn, hmem, hmatch⟩ := List.any_eq_true.mp hturn
  obtain ⟨r, hr, -⟩ := exists_of_any hmatch
  unfold FairFills at hfair
  rw [hnext] at hfair
  exact ⟨t, turn, r, ht, hmem, hr, hfair t ht turn hmem r hr⟩

/-- `alice` offers 2 ^ 62 satoshis of GBC for one of GBD, and a hundred for a
hundred. -/
def steepOffers : List Event :=
  [.create ⟨"alice", 1, .gbc 4611686018427387904, .gbd 1, false, genesisTime + 60⟩,
    .create ⟨"alice", 2, .gbc 100, .gbd 100, false, genesisTime + 60⟩]

/-- `bobby` wants 2 ^ 62 + 1 satoshis for one of GBD. -/
def steepBid : Event :=
  .create ⟨"bobby", 1, .gbd 1, .gbc 4611686018427387905, false, genesisTime + 60⟩

/-- His range ends at the first offer and starts at the second, of which he
gets a satoshi. -/
theorem steep_bid_unfair : (floorWith 4611686018427388004 1).limitOrders = .empty ∧
    ¬FairFills (steepOffers.foldl step (floorWith 4611686018427388004 1)) steepBid := by
  have hnext :
      (steepOffers.foldl step (floorWith 4611686018427388004 1)).limitOrders.nextId = 2 := by
    decide +kernel
  refine ⟨rfl, fun h => ?_⟩
  unfold FairFills at h
  rw [hnext] at h
  obtain ⟨t, ht, hturn⟩ := exists_of_any
    (x := place (steepOffers.foldl step (floorWith 4611686018427388004 1)) steepBid)
    (P := fun t => (applyTurns t 2).any fun turn =>
      ((turn.1.matchOrder 2 turn.2.id).toOption.any fun _ => true) &&
      ((turn.1.getOrder 2).toOption.any fun o =>
        o.sellPrice = ⟨.gbd 1, .gbc 4611686018427387905⟩) &&
      ((turn.1.getOrder turn.2.id).toOption.any fun o => o.forSale = 100)) (by decide +kernel)
  obtain ⟨turn, hmem, hmatch⟩ := List.any_eq_true.mp hturn
  rw [Bool.and_eq_true, Bool.and_eq_true] at hmatch
  obtain ⟨⟨hmatch, hprice⟩, hsale⟩ := hmatch
  obtain ⟨r, hr, -⟩ := exists_of_any hmatch
  obtain ⟨new, hnew, hprice⟩ := exists_of_any hprice
  obtain ⟨old, hold, hsale⟩ := exists_of_any hsale
  obtain ⟨new', old', newPays, oldPays, u, hnew', hold', -, -, hsells, hsells'⟩ :=
    (h t ht turn hmem r hr).fills
  rw [hnew, Except.ok.injEq] at hnew'
  rw [hold, Except.ok.injEq] at hold'
  subst hnew' hold'
  have hasks := hsells.price
  have hhas := hsells'.paid.2
  rw [of_decide_eq_true hprice] at hasks
  rw [of_decide_eq_true hsale] at hhas
  have hasks : newPays.amount * 4611686018427387905 / 1 ≤ oldPays.amount := hasks
  have hpays := hsells.paid.1
  omega

end Gamebank.Market
