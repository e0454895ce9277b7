import Gamebank.Ledger.Credits
import Gamebank.Market.Prices

/-!
# Matching

`Thins s t` says that the book of `t` is what is left of that of `s`: orders
go away and their amounts change, and nothing else happens to them. Each
function of the matching keeps to that; `matchOrder` besides takes one of the
two orders off the book.

The loop of `apply_order` is at an order only when every opposing order
before it is gone (`Reached`), so when it is over the new order is gone or no
opposing order is left that it could be matched with.
-/

namespace Gamebank.Market

open Gamebank.Lib Gamebank.Protocol Gamebank.Ledger
open Gamebank.Ledger.Database

variable {s t u : Database} {id : Nat} {o : LimitOrder}

/-- What never changes of an order. -/
def tag (o : LimitOrder) : Nat × Price := (o.id, o.sellPrice)

def tags (s : Database) : List (Nat × Price) := s.limitOrders.rows.map tag

def ids (s : Database) : List Nat := s.limitOrders.rows.map LimitOrder.id

theorem ids_eq (s : Database) : ids s = (tags s).map Prod.fst := by
  unfold ids tags
  rw [List.map_map]
  rfl

structure Thins (s t : Database) : Prop where
  tags : (tags t).Sublist (tags s)
  nextId : t.limitOrders.nextId = s.limitOrders.nextId

namespace Thins

theorem refl (s : Database) : Thins s s := ⟨List.Sublist.refl _, rfl⟩

theorem trans (h : Thins s t) (h' : Thins t u) : Thins s u :=
  ⟨h'.tags.trans h.tags, h'.nextId.trans h.nextId⟩

theorem of_eq (h : t.limitOrders = s.limitOrders) : Thins s t := by
  refine ⟨?_, by rw [h]⟩
  unfold Market.tags
  rw [h]

theorem ids (h : Thins s t) : (ids t).Sublist (ids s) := by
  rw [ids_eq, ids_eq]
  exact h.tags.map Prod.fst

/-- Every order left was there, at its price. -/
theorem exists_old (h : Thins s t) (ho : o ∈ t.limitOrders.rows) :
    ∃ o' ∈ s.limitOrders.rows, tag o' = tag o :=
  List.mem_map.mp (h.tags.subset (List.mem_map_of_mem ho))

/-- Ids are not used again. -/
theorem fresh (h : Thins s t) (hfresh : ∀ o ∈ s.limitOrders.rows, o.id < s.limitOrders.nextId) :
    ∀ o ∈ t.limitOrders.rows, o.id < t.limitOrders.nextId := by
  intro o ho
  obtain ⟨o', ho', htag⟩ := h.exists_old ho
  have hid : o'.id = o.id := congrArg Prod.fst htag
  rw [h.nextId, ← hid]
  exact hfresh o' ho'

end Thins

/-- Orders other than `id` are as they were. -/
def Spares (id : Nat) (s t : Database) : Prop :=
  ∀ o ∈ s.limitOrders.rows, o.id ≠ id → o ∈ t.limitOrders.rows

/-! ## Single orders -/

theorem getOrder_mem (h : s.getOrder id = .ok o) : o ∈ s.limitOrders.rows ∧ o.id = id := by
  have hfind := require_eq_ok.mp h
  exact ⟨List.mem_of_find?_eq_some hfind, by simpa using List.find?_some hfind⟩

theorem getOrder_of_mem (hids : (ids s).Nodup) (ho : o ∈ s.limitOrders.rows) :
    s.getOrder o.id = .ok o :=
  require_eq_ok.mpr (find?_eq_some_of_nodup hids ho)

theorem adjustBalance_limitOrders (s : Database) (name : AccountName) (delta : Asset) :
    Returns (s.adjustBalance name delta) fun t => t.limitOrders = s.limitOrders :=
  (adjustBalance_rest s name delta).mono fun t ht => by rw [ht.2]

theorem removeOrder_spec (hids : (ids s).Nodup) (id : Nat) :
    Thins s (s.removeOrder id) ∧ Spares id s (s.removeOrder id) ∧ id ∉ ids (s.removeOrder id) := by
  have hrows : (s.removeOrder id).limitOrders.rows = s.limitOrders.rows.eraseP fun o => o.id = id :=
    rfl
  refine ⟨⟨?_, rfl⟩, ?_, ?_⟩
  · unfold tags
    rw [hrows]
    exact List.eraseP_sublist.map tag
  · intro o ho hne
    rw [hrows]
    exact (List.mem_eraseP_of_neg (by simpa using hne)).mpr ho
  · unfold ids at hids ⊢
    rw [hrows]
    intro hmem
    obtain ⟨o, ho, rfl⟩ := List.mem_map.mp hmem
    have hfind := find?_eq_some_of_nodup hids (List.mem_of_mem_eraseP ho)
    have hperm := (perm_eraseP hfind).map LimitOrder.id
    have hnodup := hperm.nodup_iff.mp hids
    rw [List.map_append, List.nodup_append] at hnodup
    exact hnodup.2.2 o.id (List.mem_map_of_mem ho) o.id (by simp) rfl

/-- `cancel_order` takes the order off the book. -/
theorem cancelOrder_spec (hids : (ids s).Nodup) :
    Returns (s.cancelOrder id) fun t => Thins s t ∧ Spares id s t ∧ id ∉ ids t := by
  unfold cancelOrder
  refine .bind_any fun o => .bind (adjustBalance_limitOrders s _ _) fun t ht => .pure ?_
  have hids' : (ids t).Nodup := by
    unfold ids
    rwa [ht]
  obtain ⟨hthins, hspares, hgone⟩ := removeOrder_spec hids' id
  exact ⟨(Thins.of_eq ht).trans hthins, fun o ho => hspares o (ht ▸ ho), hgone⟩

/-- The amount of one order changes. -/
theorem modifyOrder_spec (hids : (ids s).Nodup) {d : Int}
    (ht : t.limitOrders = s.limitOrders.modify (fun o => o.id = id) fun o =>
      { o with forSale := o.forSale - d }) :
    Thins s t ∧ Spares id s t ∧ ids t = ids s := by
  have hrows : t.limitOrders.rows = s.limitOrders.rows.map fun o =>
      if o.id = id then { o with forSale := o.forSale - d } else o := by
    rw [ht, Table.modify, modifyFirst_eq_map hids]
  have htags : tags t = tags s := by
    unfold tags
    rw [hrows, List.map_map]
    refine List.map_congr_left fun o _ => ?_
    rw [Function.comp_apply]
    split <;> rfl
  refine ⟨⟨by rw [htags], by rw [ht]; rfl⟩, fun o ho hne => ?_, by rw [ids_eq, ids_eq, htags]⟩
  rw [hrows]
  exact List.mem_map.mpr ⟨o, ho, if_neg hne⟩

/-- What `fill_order` does to the book. -/
structure Filled (id : Nat) (s t : Database) (gone : Bool) : Prop where
  thins : Thins s t
  spares : Spares id s t
  gone_iff : gone = true ↔ id ∉ ids t

/-- An order that pays all it has is off the book. -/
theorem fillOrder_spec (hids : (ids s).Nodup) (ho : o ∈ s.limitOrders.rows)
    (pays receives : Asset) :
    Returns (s.fillOrder o.id pays receives) fun r =>
      Filled o.id s r.1 r.2 ∧ (pays = o.amountForSale → r.2 = true) := by
  unfold fillOrder
  refine .bind_eq fun x hx => .ensure fun _ => .ensure fun _ => ?_
  rw [getOrder_of_mem hids ho, Except.ok.injEq] at hx
  subst hx
  refine .bind (adjustBalance_limitOrders s _ _) fun t ht => ?_
  have hids' : (ids t).Nodup := by
    unfold ids
    rwa [ht]
  have hthins := Thins.of_eq ht
  refine .ite (fun _ => .pure ?_) fun hnot => ?_
  · obtain ⟨h, hspares, hgone⟩ := removeOrder_spec hids' o.id
    exact ⟨⟨hthins.trans h, fun x hx => hspares x (ht ▸ hx), by simp [hgone]⟩, fun _ => rfl⟩
  · refine .ensure fun _ => .ensure fun _ => ?_
    obtain ⟨h, hspares, hsame⟩ := modifyOrder_spec (s := t)
      (t := { t with limitOrders := t.limitOrders.modify (fun x => x.id = o.id) fun x =>
        { x with forSale := x.forSale - pays.amount } }) hids' rfl
    refine .bind_any fun receive => .ite (fun _ => ?_) fun _ => .pure ?_
    · refine .bind (cancelOrder_spec (hsame ▸ hids')) fun u hu => .pure ?_
      exact ⟨⟨(hthins.trans h).trans hu.1, fun x hx hne => hu.2.1 x (hspares x (ht ▸ hx) hne) hne,
        by simp [hu.2.2]⟩, fun _ => rfl⟩
    · refine ⟨⟨hthins.trans h, fun x hx => hspares x (ht ▸ hx), ?_⟩, fun hpays => absurd hpays hnot⟩
      rw [hsame]
      have hmem : o.id ∈ ids t := by
        unfold ids
        rw [ht]
        exact List.mem_map_of_mem ho
      simp [hmem]

/-! ## Two orders -/

/-- One of the two pays all it has. -/
theorem tradeAmounts_spec (newForSale oldForSale : Asset) (price : Price)
    (hsymbol : oldForSale.symbol = price.base.symbol) :
    Returns (tradeAmounts newForSale oldForSale price) fun r =>
      newForSale.symbol = price.quote.symbol ∧ (r.1 = newForSale ∨ r.2 = oldForSale) := by
  unfold tradeAmounts
  refine .bind (oldForSale.times_symbol price) fun worth hworth => .ensure fun hsame => ?_
  rw [if_pos hsymbol] at hworth
  have hquote : newForSale.symbol = price.quote.symbol := (of_decide_eq_true hsame).trans hworth
  exact .ite (fun _ => .bind_any fun _ => .pure ⟨hquote, .inl rfl⟩) fun _ =>
    .pure ⟨hquote, .inr rfl⟩

/-- What `match` does to the book. -/
structure Matched (newId oldId : Nat) (s t : Database) (finished : Bool) : Prop where
  thins : Thins s t
  spares : ∀ o ∈ s.limitOrders.rows, o.id ≠ newId → o.id ≠ oldId → o ∈ t.limitOrders.rows
  finished_iff : finished = true ↔ newId ∉ ids t
  gone : finished = false → oldId ∉ ids t

/-- **A match** takes one of the two orders off the book. -/
theorem matchOrder_spec (hids : (ids s).Nodup) {new old : LimitOrder}
    (hnew : new ∈ s.limitOrders.rows) (hold : old ∈ s.limitOrders.rows)
    (hproper : Proper old.sellPrice) :
    Returns (s.matchOrder new.id old.id) fun r => Matched new.id old.id s r.1 r.2.1 := by
  unfold matchOrder
  rw [getOrder_of_mem hids hnew, getOrder_of_mem hids hold]
  refine .bind (Q := (· = new)) (.ok rfl) fun x hx =>
    .bind (Q := (· = old)) (.ok rfl) fun y hy => ?_
  subst hx hy
  refine .ensure fun _ => .ensure fun _ => .ensure fun _ => ?_
  refine .bind (tradeAmounts_spec x.amountForSale y.amountForSale y.sellPrice rfl)
    fun pays hpays => ?_
  obtain ⟨hsymbol, hall⟩ := hpays
  -- an order is not matched with itself: the symbols differ
  have hne : y.id ≠ x.id := by
    intro heq
    have hxy : y = x := List.inj_on_of_nodup_map hids hold hnew heq
    have hsame : y.sellPrice.base.symbol = y.sellPrice.quote.symbol := by
      rw [hxy] at hsymbol ⊢
      exact hsymbol
    rcases hproper.symbols with ⟨h1, h2⟩ | ⟨h1, h2⟩ <;> simp [h1, h2] at hsame
  refine .ensure fun _ => .bind (fillOrder_spec hids hnew pays.1 pays.2) fun r hr => ?_
  obtain ⟨t, newFilled⟩ := r
  obtain ⟨hfilled, hfirst⟩ := hr
  have hids' : (ids t).Nodup := hfilled.thins.ids.nodup hids
  have hold' : y ∈ t.limitOrders.rows := hfilled.spares y hold hne
  refine .bind (fillOrder_spec hids' hold' pays.2 pays.1) fun r hr => ?_
  obtain ⟨u, oldFilled⟩ := r
  obtain ⟨hfilled', hsecond⟩ := hr
  refine .ensure fun _ => .pure ⟨hfilled.thins.trans hfilled'.thins, ?_, ?_, ?_⟩
  · exact fun o ho hx hy => hfilled'.spares o (hfilled.spares o ho hx) hy
  · show newFilled = true ↔ _
    rw [hfilled.gone_iff]
    constructor
    · exact fun hgone hmem => hgone (hfilled'.thins.ids.subset hmem)
    · intro hgone hmem
      obtain ⟨o, ho, hid⟩ := List.mem_map.mp hmem
      apply hgone
      rw [← hid]
      exact List.mem_map_of_mem (hfilled'.spares o ho (by rw [hid]; exact hne.symm))
  · intro hnot
    have hnot' : newFilled = false := hnot
    have hpays : pays.2 = y.amountForSale := by
      rcases hall with hall | hall
      · have := hfirst hall
        rw [hnot'] at this
        cases this
      · exact hall
    exact hfilled'.gone_iff.mp (hsecond hpays)

/-! ## The index -/

/-- Ids are unique and prices proper. -/
structure Sound (s : Database) : Prop where
  ids : (ids s).Nodup
  proper : ∀ o ∈ s.limitOrders.rows, Proper o.sellPrice

theorem Thins.sound (h : Thins s t) (hs : Sound s) : Sound t where
  ids := h.ids.nodup hs.ids
  proper := by
    intro o ho
    obtain ⟨o', ho', htag⟩ := h.exists_old ho
    have hprice : o'.sellPrice = o.sellPrice := congrArg Prod.snd htag
    exact hprice ▸ hs.proper o' ho'

theorem rank_congr {a b : LimitOrder} (h : tag a = tag b) : rank a = rank b := by
  have hid : a.id = b.id := congrArg Prod.fst h
  have hprice : a.sellPrice = b.sellPrice := congrArg Prod.snd h
  unfold rank
  rw [hid, hprice]

/-- Different orders have different places in the index. -/
theorem rank_ne {a b : LimitOrder} (h : a.id ≠ b.id) : rank a ≠ rank b := by
  intro heq
  unfold rank at heq
  have hid := congrArg (fun r => (ofLex (ofLex r).2).2) heq
  exact h hid

/-- Of two orders in a book, the same id means the same price. -/
theorem Sound.tag_eq (h : Sound s) {a b : Nat × Price} (ha : a ∈ tags s) (hb : b ∈ tags s)
    (hid : a.1 = b.1) : a = b := by
  have hnodup := h.ids
  rw [ids_eq] at hnodup
  exact List.inj_on_of_nodup_map hnodup ha hb hid

/-- The first order a test holds of. -/
theorem firstByPrice_spec (h : Sound s) (test : LimitOrder → Bool) (ho : o ∈ s.limitOrders.rows)
    (htest : test o = true) :
    ∃ x, s.firstByPrice test = some x ∧ x ∈ s.limitOrders.rows ∧ test x = true ∧
      rank x ≤ rank o := by
  have hmem : o ∈ s.limitOrders.rows.filter test := List.mem_filter.mpr ⟨ho, htest⟩
  unfold firstByPrice
  cases hleast : Table.least LimitOrder.before (s.limitOrders.rows.filter test) with
  | none =>
      rw [Table.least_eq_none] at hleast
      rw [hleast] at hmem
      cases hmem
  | some x =>
      obtain ⟨hx, htestx⟩ := List.mem_filter.mp (Table.mem_of_least hleast)
      have hproper := fun a (ha : a ∈ s.limitOrders.rows.filter test) =>
        h.proper a (List.mem_filter.mp ha).1
      have hmin := Table.rank_least_le rank
        (fun a ha b hb => before_iff (hproper a ha) (hproper b hb)) hleast
      exact ⟨x, rfl, hx, htestx, hmin o hmem⟩

theorem firstByPrice_mem {test : LimitOrder → Bool} {x : LimitOrder}
    (hx : s.firstByPrice test = some x) : x ∈ s.limitOrders.rows ∧ test x = true :=
  List.mem_filter.mp (Table.mem_of_least hx)

/-! ## The loop -/

/-- An order at the price `q` is on the other side of one at `p`. -/
def Opposes (p q : Price) : Prop := q.base.symbol = p.quote.symbol

theorem Opposes.side_eq {p q : Price} (h : Opposes p q) :
    side q = side ⟨p.quote, p.base⟩ := by
  unfold Opposes at h
  unfold side
  rw [h]

/-- The opposing orders before `limitItr` are gone. -/
structure Reached (p : Price) (s : Database) (limitItr : Option LimitOrder) : Prop where
  before : ∀ o ∈ s.limitOrders.rows, Opposes p o.sellPrice → ∃ x, limitItr = some x ∧
    rank x ≤ rank o
  present : ∀ x, limitItr = some x → tag x ∈ tags s

theorem Reached.proper {p : Price} {x : LimitOrder} (h : Reached p s (some x)) (hs : Sound s) :
    Proper x.sellPrice := by
  obtain ⟨x', hx', htag⟩ := List.mem_map.mp (h.present x rfl)
  have hprice : x'.sellPrice = x.sellPrice := congrArg Prod.snd htag
  exact hprice ▸ hs.proper x' hx'

/-- What was not matched, and the new order that was, are still in the book. -/
theorem Matched.keeps_tag {x y : LimitOrder} {newId : Nat} (hm : Matched newId x.id s t false)
    (hs : Sound s) (hy : tag y ∈ tags s) (hne : y.id ≠ x.id) : tag y ∈ tags t := by
  obtain ⟨z, hz, hztag⟩ := List.mem_map.mp hy
  have hzid : z.id = y.id := congrArg Prod.fst hztag
  rw [← hztag]
  by_cases hnew : z.id = newId
  · have hleft : newId ∈ ids t := by
      by_contra hnot
      have := hm.finished_iff.mpr hnot
      cases this
    obtain ⟨w, hw, hwid⟩ := List.mem_map.mp hleft
    have hsame : tag w = tag z := hs.tag_eq (hm.thins.tags.subset (List.mem_map_of_mem hw))
      (List.mem_map_of_mem hz) (hwid.trans hnew.symm)
    rw [← hsame]
    exact List.mem_map_of_mem hw
  · exact List.mem_map_of_mem (hm.spares z hz hnew (hzid ▸ hne))

/-- What comes next in the index is still there after the match. -/
theorem Matched.present_next {x y : LimitOrder} {newId : Nat} (hm : Matched newId x.id s t false)
    (hs : Sound s) (hx : tag x ∈ tags s) (hy : s.nextByPrice x = some y) : tag y ∈ tags t := by
  obtain ⟨x', hx', hxtag⟩ := List.mem_map.mp hx
  have hprice : x'.sellPrice = x.sellPrice := congrArg Prod.snd hxtag
  obtain ⟨hymem, hbefore⟩ := firstByPrice_mem hy
  have hlt := (before_iff (hprice ▸ hs.proper x' hx') (hs.proper y hymem)).mp hbefore
  refine hm.keeps_tag hs (List.mem_map_of_mem hymem) fun heq => ?_
  rw [rank_congr (hs.tag_eq (List.mem_map_of_mem hymem) hx heq)] at hlt
  exact lt_irrefl _ hlt

/-- A turn that does not finish goes on to the next order. -/
theorem Reached.next {p : Price} {new : Nat} {x : LimitOrder} (h : Reached p s (some x))
    (hs : Sound s) (hm : Matched new x.id s t false) : Reached p t (s.nextByPrice x) := by
  have hproper := h.proper hs
  constructor
  · intro o ho hopp
    obtain ⟨o', ho', htag'⟩ := hm.thins.exists_old ho
    have hprice : o'.sellPrice = o.sellPrice := congrArg Prod.snd htag'
    have hid : o'.id = o.id := congrArg Prod.fst htag'
    obtain ⟨y, hy, hle⟩ := h.before o' ho' (hprice ▸ hopp)
    cases hy
    have hne : x.id ≠ o'.id := by
      intro heq
      apply hm.gone rfl
      rw [heq, hid]
      exact List.mem_map_of_mem ho
    have hbefore : x.before o' = true :=
      (before_iff hproper (hs.proper o' ho')).mpr (lt_of_le_of_ne hle (rank_ne hne))
    obtain ⟨y, hy, -, -, hrank⟩ := firstByPrice_spec hs (fun y => x.before y) ho' hbefore
    exact ⟨y, hy, rank_congr htag' ▸ hrank⟩
  · exact fun y hy => hm.present_next hs (h.present x rfl) hy

/-- At the end of the range no opposing order is left that the price reaches. -/
theorem Reached.end {p : Price} {limitItr limitEnd : Option LimitOrder} {s₀ : Database}
    (h : Reached p s limitItr) (hs₀ : Sound s₀) (hthins : Thins s₀ s) (hp : Proper p)
    (hend : ∀ e, limitEnd = some e → e ∈ s₀.limitOrders.rows ∧
      Price.gt ⟨p.quote, p.base⟩ e.sellPrice = true)
    (hid : limitItr.map LimitOrder.id = limitEnd.map LimitOrder.id) :
    ∀ o ∈ s.limitOrders.rows, Opposes p o.sellPrice →
      Price.gt ⟨p.quote, p.base⟩ o.sellPrice = true := by
  intro o ho hopp
  obtain ⟨x, rfl, hle⟩ := h.before o ho hopp
  cases limitEnd with
  | none => cases hid
  | some e =>
      obtain ⟨he, hgt⟩ := hend e rfl
      have htag : tag x = tag e :=
        hs₀.tag_eq (hthins.tags.subset (h.present x rfl)) (List.mem_map_of_mem he)
          (Option.some.inj hid)
      rw [rank_congr htag] at hle
      have heproper := hs₀.proper e he
      have hoproper := (hthins.sound hs₀).proper o ho
      rw [hp.inverse.gt_iff heproper] at hgt
      rw [hp.inverse.gt_iff hoproper]
      have hside := hopp.side_eq
      have hnot : ¬rank o < rank e := not_lt.mpr hle
      rw [rank_lt_iff] at hnot
      push Not at hnot
      rcases hgt with hgt | ⟨hsame, hrate⟩
      · have := hnot.1
        omega
      · right
        refine ⟨hside.symm, lt_of_le_of_lt ?_ hrate⟩
        by_contra hlt
        have := (hnot.2 (hside.trans hsame)).1
        exact hlt this

section

variable {p : Price} {new : LimitOrder} {limitItr limitEnd : Option LimitOrder}

/-- The new order is in the book, at its price. -/
def Offered (new : LimitOrder) (s : Database) : Prop := tag new ∈ tags s

theorem Offered.matchOrder (hnew : Offered new s) (hs : Sound s) {x : LimitOrder}
    (hx : tag x ∈ tags s) :
    Returns (s.matchOrder new.id x.id) fun r => Matched new.id x.id s r.1 r.2.1 := by
  obtain ⟨n, hn, hntag⟩ := List.mem_map.mp hnew
  obtain ⟨y, hy, hytag⟩ := List.mem_map.mp hx
  have hnid : n.id = new.id := congrArg Prod.fst hntag
  have hyid : y.id = x.id := congrArg Prod.fst hytag
  rw [← hnid, ← hyid]
  exact matchOrder_spec hs.ids hn hy (hs.proper y hy)

theorem Offered.after (hnew : Offered new s) (hs : Sound s) {x : LimitOrder}
    (hm : Matched new.id x.id s t false) : Offered new t := by
  have hmem : new.id ∈ ids t := by
    by_contra hnot
    have := hm.finished_iff.mpr hnot
    cases this
  obtain ⟨n, hn, hid⟩ := List.mem_map.mp hmem
  have htag : tag n ∈ tags s := hm.thins.tags.subset (List.mem_map_of_mem hn)
  have hsame : tag n = tag new := hs.tag_eq htag hnew hid
  show tag new ∈ tags t
  rw [← hsame]
  exact List.mem_map_of_mem hn

/-- **The loop of `apply_order`.** When it is over, the new order is gone, or
no opposing order is left that its price reaches. -/
theorem matchOrders_spec {s₀ : Database} (hs₀ : Sound s₀) (hp : Proper p)
    (hend : ∀ e, limitEnd = some e → e ∈ s₀.limitOrders.rows ∧
      Price.gt ⟨p.quote, p.base⟩ e.sellPrice = true)
    {fuel : Nat} (hthins : Thins s₀ s) (hnew : Offered new s) (h : Reached p s limitItr) :
    Returns (matchOrders new.id limitEnd fuel s limitItr) fun t => Thins s₀ t ∧
      (new.id ∈ ids t → ∀ o ∈ t.limitOrders.rows, Opposes p o.sellPrice →
        Price.gt ⟨p.quote, p.base⟩ o.sellPrice = true) := by
  induction fuel generalizing s limitItr with
  | zero => exact .error
  | succ fuel ih =>
      unfold matchOrders
      refine .ite (fun hid => .ok ⟨hthins, fun _ => h.end hs₀ hthins hp hend hid⟩) fun _ => ?_
      cases limitItr with
      | none => exact .error
      | some x =>
          have hs := hthins.sound hs₀
          refine .bind (hnew.matchOrder hs (h.present x rfl)) fun r hr => ?_
          obtain ⟨t, finished, oldFilled⟩ := r
          cases finished with
          | true =>
              exact .pure ⟨hthins.trans hr.thins, fun hmem => absurd hmem (hr.finished_iff.mp rfl)⟩
          | false => exact ih (hthins.trans hr.thins) (hnew.after hs hr) (h.next hs hr)

/-- A turn that goes on takes an order off the book. -/
theorem Matched.length_lt {x : LimitOrder} (hm : Matched new.id x.id s t false)
    (hx : tag x ∈ tags s) : t.limitOrders.rows.length < s.limitOrders.rows.length := by
  have hle : (ids t).length ≤ (ids s).length := hm.thins.ids.length_le
  have hne : (ids t).length ≠ (ids s).length := by
    intro heq
    have hsame := hm.thins.ids.eq_of_length heq
    apply hm.gone rfl
    rw [hsame, ids_eq]
    exact List.mem_map_of_mem (f := Prod.fst) hx
  unfold ids at hle hne
  rw [List.length_map, List.length_map] at hle hne
  omega

/-- The fuel lasts: more of it makes no difference. -/
theorem matchOrders_fuel {fuel : Nat} (hs : Sound s) (hnew : Offered new s)
    (h : Reached p s limitItr)
    (hfuel : s.limitOrders.rows.length < fuel) :
    matchOrders new.id limitEnd (fuel + 1) s limitItr =
      matchOrders new.id limitEnd fuel s limitItr := by
  induction fuel generalizing s limitItr with
  | zero => omega
  | succ fuel ih =>
      unfold matchOrders
      split
      · rfl
      · cases limitItr with
        | none => rfl
        | some x =>
            have hr := hnew.matchOrder hs (h.present x rfl)
            dsimp only
            cases hresult : s.matchOrder new.id x.id with
            | error e => rfl
            | ok r =>
                obtain ⟨t, finished, oldFilled⟩ := r
                cases finished with
                | true => rfl
                | false =>
                    have hm : Matched new.id x.id s t false := hr _ hresult
                    have hshort := hm.length_lt (h.present x rfl)
                    have hlast : t.limitOrders.rows.length < fuel := by omega
                    exact ih (hm.thins.sound hs) (hnew.after hs hm) (h.next hs hm) hlast

/-! ## Priority -/

/-- The turns of the loop: the state before each match and the order touched. -/
def turns (newId : Nat) (limitEnd : Option LimitOrder) :
    Nat → Database → Option LimitOrder → List (Database × LimitOrder)
  | 0, _, _ => []
  | fuel + 1, s, limitItr =>
      if limitItr.map LimitOrder.id = limitEnd.map LimitOrder.id then []
      else
        match limitItr with
        | none => []
        | some old => (s, old) ::
            match s.matchOrder newId old.id with
            | .error _ => []
            | .ok (t, finished, _) =>
                if finished then [] else turns newId limitEnd fuel t (s.nextByPrice old)

/-- What is kept from turn to turn holds at every turn. -/
theorem turns_keep {I : Database → Option LimitOrder → Prop} {newId : Nat}
    {limitEnd : Option LimitOrder}
    (hstep : ∀ s x, I s (some x) → (some x).map LimitOrder.id ≠ limitEnd.map LimitOrder.id →
      ∀ t oldFilled, s.matchOrder newId x.id = .ok (t, false, oldFilled) → I t (s.nextByPrice x))
    {fuel : Nat} {limitItr : Option LimitOrder} (h : I s limitItr) :
    ∀ turn ∈ turns newId limitEnd fuel s limitItr, I turn.1 (some turn.2) ∧
      (some turn.2).map LimitOrder.id ≠ limitEnd.map LimitOrder.id := by
  induction fuel generalizing s limitItr with
  | zero => simp [turns]
  | succ fuel ih =>
      unfold turns
      split
      next => simp
      next hid =>
        cases limitItr with
        | none => simp
        | some x =>
            intro turn hturn
            rcases List.mem_cons.mp hturn with rfl | hturn
            · exact ⟨h, hid⟩
            · split at hturn
              next => cases hturn
              next t finished oldFilled hresult =>
                split at hturn
                next => cases hturn
                next hfinished =>
                  rw [Bool.not_eq_true] at hfinished
                  subst hfinished
                  exact ih (hstep s x h hid t oldFilled hresult) turn hturn

/-- The new order is there and the loop has come so far at every turn. -/
theorem turns_reached {s₀ : Database} (hs₀ : Sound s₀) {fuel : Nat} (hthins : Thins s₀ s)
    (hnew : Offered new s) (h : Reached p s limitItr) :
    ∀ turn ∈ turns new.id limitEnd fuel s limitItr,
      Thins s₀ turn.1 ∧ Reached p turn.1 (some turn.2) := by
  have hstep : ∀ s x, (Thins s₀ s ∧ Offered new s ∧ Reached p s (some x)) →
      (some x).map LimitOrder.id ≠ limitEnd.map LimitOrder.id → ∀ t oldFilled,
        s.matchOrder new.id x.id = .ok (t, false, oldFilled) →
          Thins s₀ t ∧ Offered new t ∧ Reached p t (s.nextByPrice x) := by
    rintro s x ⟨hthins, hnew, h⟩ - t oldFilled hmatch
    have hs := hthins.sound hs₀
    have hm : Matched new.id x.id s t false := hnew.matchOrder hs (h.present x rfl) _ hmatch
    exact ⟨hthins.trans hm.thins, hnew.after hs hm, h.next hs hm⟩
  intro turn hturn
  obtain ⟨⟨hthins', -, hreached⟩, -⟩ :=
    turns_keep (I := fun s limitItr => Thins s₀ s ∧ Offered new s ∧ Reached p s limitItr) hstep
      ⟨hthins, hnew, h⟩ turn hturn
  exact ⟨hthins', hreached⟩

/-- Later turns touch later orders. -/
theorem turns_rank {fuel : Nat} (hs : Sound s) (hnew : Offered new s) (h : Reached p s limitItr) :
    (∀ turn ∈ turns new.id limitEnd fuel s limitItr, ∀ x, limitItr = some x →
      rank x ≤ rank turn.2) ∧
      (turns new.id limitEnd fuel s limitItr).Pairwise fun a b => rank a.2 < rank b.2 := by
  induction fuel generalizing s limitItr with
  | zero => simp [turns]
  | succ fuel ih =>
      unfold turns
      split
      · simp
      · cases limitItr with
        | none => simp
        | some x =>
            dsimp only
            have hr := hnew.matchOrder hs (h.present x rfl)
            split
            next => simp
            next t finished _ hresult =>
              split
              next => simp
              next hfinished =>
                rw [Bool.not_eq_true] at hfinished
                subst hfinished
                have hm : Matched new.id x.id s t false := hr _ hresult
                have hreach := h.next hs hm
                obtain ⟨hfirst, hpairs⟩ := ih (hm.thins.sound hs) (hnew.after hs hm) hreach
                have hlater : ∀ turn ∈ turns new.id limitEnd fuel t (s.nextByPrice x),
                    rank x < rank turn.2 := by
                  intro turn hturn
                  cases hy : s.nextByPrice x with
                  | none =>
                      rw [hy] at hturn
                      cases fuel with
                      | zero => cases hturn
                      | succ fuel =>
                          unfold turns at hturn
                          split at hturn <;> cases hturn
                  | some y =>
                      obtain ⟨hymem, hbefore⟩ := firstByPrice_mem hy
                      have hlt := (before_iff (h.proper hs) (hs.proper y hymem)).mp hbefore
                      exact lt_of_lt_of_le hlt (hfirst turn hturn y hy)
                refine ⟨?_, List.Pairwise.cons hlater hpairs⟩
                intro turn hturn y hy
                cases hy
                rcases List.mem_cons.mp hturn with rfl | hturn
                · exact le_refl _
                · exact (hlater turn hturn).le

/-- An opposing order before the one touched has left the book. -/
theorem Reached.priority {s₀ : Database} {x : LimitOrder} (h : Reached p s (some x))
    (hs₀ : Sound s₀) (hthins : Thins s₀ s) (ho : o ∈ s₀.limitOrders.rows)
    (hopp : Opposes p o.sellPrice) (hbefore : o.before x = true) : o.id ∉ ids s := by
  intro hmem
  obtain ⟨y, hy, hyid⟩ := List.mem_map.mp hmem
  obtain ⟨z, hz, hztag⟩ := hthins.exists_old hy
  have hzid : z.id = o.id := (congrArg Prod.fst hztag).trans hyid
  have hsame : tag z = tag o := hs₀.tag_eq (List.mem_map_of_mem hz) (List.mem_map_of_mem ho) hzid
  have hytag : tag y = tag o := hztag.symm.trans hsame
  have hprice : y.sellPrice = o.sellPrice := congrArg Prod.snd hytag
  obtain ⟨x', hx', hle⟩ := h.before y hy (hprice ▸ hopp)
  cases hx'
  have hlt := (before_iff (hs₀.proper o ho) (h.proper (hthins.sound hs₀))).mp hbefore
  rw [rank_congr hytag] at hle
  exact absurd hlt (not_lt.mpr hle)

end

end Gamebank.Market
