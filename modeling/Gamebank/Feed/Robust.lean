import Gamebank.Feed.State
import Gamebank.Lib.Runs
import Gamebank.Market.Prices
import Mathlib.Algebra.Order.Field.Basic

/-!
# The median between honest feeds, and the cap

Prices are compared by their symbols first, so the middle of the feeds is the
middle of their rates where all of them name GBD first, as they do after the
hardfork. Then a minority cannot move it out of the range of the others, and
the cap applies. The cap itself is a price, and a price of no GBD throws.
-/

namespace Gamebank.Feed

open Gamebank.Lib Gamebank.Protocol Gamebank.Ledger Gamebank.Market

/-- A price with positive amounts of 64 bits, of GBD for GBC. -/
structure Oriented (p : Price) : Prop where
  proper : Proper p
  gbd : gbdPrice p = true

variable {p q : Price}

namespace Oriented

theorem base (h : Oriented p) : p.base.symbol = .gbd := by
  have hgbd := h.gbd
  simp only [gbdPrice, Asset.isAssetType, Bool.and_eq_true, decide_eq_true_eq] at hgbd
  exact hgbd.1

theorem side_eq (h : Oriented p) : side p = 1 := by
  simp [side, h.base]

theorem gt_iff (hp : Oriented p) (hq : Oriented q) : p.gt q = true ↔ rate q < rate p := by
  rw [hp.proper.gt_iff hq.proper, hp.side_eq, hq.side_eq]
  simp

end Oriented

theorem sorted_perm (prices : List Price) : (Feeds.sorted prices).Perm prices :=
  List.mergeSort_perm prices _

theorem mem_of_middle_sorted {prices : List Price} {m : Price}
    (h : middle (Feeds.sorted prices) = some m) : m ∈ prices :=
  (sorted_perm prices).mem_iff.mp (mem_of_middle h)

namespace Feeds

/-! ## What is published -/

/-- The feeds are prices of the market, those of the history name GBD first. -/
structure Sound (x : Feeds) : Prop where
  feeds : ∀ name, (x.feedOf name).gbdExchangeRate = .empty ∨
    Proper (x.feedOf name).gbdExchangeRate
  history : ∀ p ∈ x.priceHistory, Oriented p

/-- The history fits its window. -/
def Windowed (x : Feeds) : Prop := x.priceHistory.length ≤ feedHistoryWindow

variable {x x' : Feeds} {feeds : List (AccountName × Price)}

/-- What passes `feed_publish_operation::validate`. -/
theorem proper_of_validate (o : FeedPublishOperation)
    (hpair : (gbcPrice o.exchangeRate || gbdPrice o.exchangeRate) = true)
    (h : o.exchangeRate.validate = .ok ()) : Proper o.exchangeRate := by
  obtain ⟨hbase, hquote⟩ := validate_spec o.exchangeRate () h
  have hbaseFits := o.base_fits
  have hquoteFits := o.quote_fits
  simp only [fitsInt64, decide_eq_true_eq] at hbaseFits hquoteFits
  refine ⟨⟨hbase, by omega⟩, ⟨hquote, by omega⟩, ?_⟩
  simp only [gbcPrice, gbdPrice, Asset.isAssetType, Bool.or_eq_true, Bool.and_eq_true,
    decide_eq_true_eq] at hpair
  rcases hpair with ⟨h1, h2⟩ | ⟨h1, h2⟩
  · simp [isMarket, h1, h2]
  · simp [isMarket, h1, h2]

theorem Sound.setFeed (h : x.Sound) (owner : AccountName) {rate : Price} (hrate : Proper rate) :
    (x.setFeed owner rate).Sound := by
  refine ⟨?_, h.history⟩
  intro name
  by_cases hname : name = owner
  · simp [Feeds.setFeed, hname, hrate]
  · simp only [Feeds.setFeed, hname, if_false]
    exact h.feeds name

theorem Sound.feedPublish (h : x.Sound) (o : FeedPublishOperation) :
    Returns (x.feedPublish o) Sound := by
  unfold Feeds.feedPublish
  refine .bind_any fun _ => .ensure fun hpair => .bind_eq fun _ hvalid => .ensure fun _ =>
    .bind_any fun witness => .pure ?_
  exact h.setFeed witness.owner (proper_of_validate o hpair hvalid)

theorem Sound.witnessSetProperties (h : x.Sound) (o : FeedPublishOperation) :
    Returns (x.witnessSetProperties o) Sound := by
  unfold Feeds.witnessSetProperties
  refine .bind_any fun _ => .ensure fun hpair => .bind_eq fun _ hvalid => .ensure fun _ =>
    .bind_any fun witness => .pure ?_
  exact h.setFeed witness.owner (proper_of_validate o (by rw [hpair, Bool.or_true]) hvalid)

/-- Every fresh feed is a price of the market. -/
theorem Sound.proper_of_fresh (h : x.Sound) (hfresh : x.freshFeeds = .ok feeds) :
    ∀ e ∈ feeds, Proper e.2 := by
  intro e he
  obtain ⟨scheduled, hscheduled, hfeeds⟩ := bind_eq_ok.mp hfresh
  rw [← pure_eq_ok.mp hfeeds] at he
  obtain ⟨f, hf, rfl⟩ := List.mem_map.mp he
  obtain ⟨hmem, hf⟩ := List.mem_filter.mp hf
  obtain ⟨name, -, hname⟩ := mem_of_mapM_eq_ok hscheduled f hmem
  obtain ⟨wit, -, hwit⟩ := bind_eq_ok.mp hname
  rw [← pure_eq_ok.mp hwit] at hf ⊢
  rcases h.feeds wit.owner with hnull | hproper
  · rw [isFresh, hnull] at hf
    simp [Price.isNull, Price.eq, Price.cross] at hf
  · exact hproper

/-! ## One update -/

/-- The update goes ahead with these fresh feeds. -/
structure Updates (x : Feeds) (feeds : List (AccountName × Price)) : Prop where
  due : x.due = true
  fresh : x.freshFeeds = .ok feeds
  enough : minFeeds ≤ feeds.length

/-- All of them name GBD first. -/
def Aligned (feeds : List (AccountName × Price)) : Prop := ∀ e ∈ feeds, gbdPrice e.2 = true

theorem length_pushPrice {history : List Price} (p : Price)
    (h : history.length ≤ feedHistoryWindow) :
    (pushPrice history p).length ≤ feedHistoryWindow := by
  unfold pushPrice
  by_cases hlong : feedHistoryWindow < (history ++ [p]).length
  · rw [if_pos hlong, List.length_tail, List.length_append, List.length_singleton]
    omega
  · rw [if_neg hlong]
    exact not_lt.mp hlong

theorem mem_pushPrice {history : List Price} {p q : Price} (h : q ∈ pushPrice history p) :
    q ∈ history ∨ q = p := by
  have hmem : q ∈ history ++ [p] := by
    unfold pushPrice at h
    by_cases hlong : feedHistoryWindow < (history ++ [p]).length
    · rw [if_pos hlong] at h
      exact List.mem_of_mem_tail h
    · rwa [if_neg hlong] at h
  simpa using hmem

/-- The fresh feeds of an update, where they are aligned. -/
theorem Sound.oriented (h : x.Sound) (hup : x.Updates feeds) (haligned : Aligned feeds) :
    ∀ p ∈ feeds.map Prod.snd, Oriented p := by
  intro p hp
  obtain ⟨e, he, rfl⟩ := List.mem_map.mp hp
  exact ⟨h.proper_of_fresh hup.fresh e he, haligned e he⟩

/-- The history after the entry of one of the fresh feeds. -/
theorem Sound.oriented_push (h : x.Sound) {p : Price} (hp : Oriented p) :
    ∀ q ∈ pushPrice x.priceHistory p, Oriented q := by
  intro q hq
  rcases mem_pushPrice hq with hold | rfl
  · exact h.history q hold
  · exact hp

/-- What an update writes. -/
theorem updateFrom_spec (x : Feeds) (prices : List Price) :
    Returns (x.updateFrom prices) fun x' => ∃ m current cap,
      middle (sorted prices) = some m ∧
      middle (sorted (pushPrice x.priceHistory m)) = some current ∧ minPrice x.ledger = .ok cap ∧
      x'.priceHistory = pushPrice x.priceHistory m ∧ x'.feedOf = x.feedOf ∧
      x'.ledger.props = x.ledger.props ∧
      x'.ledger.currentMedianHistory = if cap.gt current then cap else current := by
  intro x' h
  unfold updateFrom at h
  obtain ⟨m, hm, h⟩ := bind_eq_ok.mp h
  obtain ⟨current, hcurrent, h⟩ := bind_eq_ok.mp h
  obtain ⟨cap, hcap, h⟩ := bind_eq_ok.mp h
  rw [← pure_eq_ok.mp h]
  exact ⟨m, current, cap, Database.require_eq_ok.mp hm, Database.require_eq_ok.mp hcurrent, hcap,
    rfl, rfl, rfl, rfl⟩

/-- The condition on a call: an update that goes ahead has aligned feeds. -/
def AlignedAt (x : Feeds) : Call → Prop
  | .updateMedianFeed => ∀ feeds, x.Updates feeds → Aligned feeds
  | _ => True

theorem Sound.updateMedianFeed (h : x.Sound) (haligned : AlignedAt x .updateMedianFeed) :
    Returns x.updateMedianFeed Sound := by
  intro x' hx'
  unfold Feeds.updateMedianFeed at hx'
  by_cases hdue : x.due = true
  · rw [if_pos hdue] at hx'
    obtain ⟨feeds, hfresh, hx'⟩ := bind_eq_ok.mp hx'
    by_cases henough : minFeeds ≤ feeds.length
    · rw [if_pos henough] at hx'
      have hup : x.Updates feeds := ⟨hdue, hfresh, henough⟩
      obtain ⟨m, -, -, hm, -, -, hhistory, hfeedOf, -⟩ := updateFrom_spec x _ x' hx'
      have hmOriented := h.oriented hup (haligned feeds hup) m (mem_of_middle_sorted hm)
      refine ⟨?_, ?_⟩
      · rw [hfeedOf]
        exact h.feeds
      · rw [hhistory]
        exact h.oriented_push hmOriented
    · rw [if_neg henough] at hx'
      rw [← pure_eq_ok.mp hx']
      exact h
  · rw [if_neg hdue] at hx'
    cases hx'
    exact h

theorem Sound.perform (h : x.Sound) {c : Call} (haligned : AlignedAt x c) :
    Returns (x.perform c) Sound := by
  cases c with
  | feedPublish o => exact h.feedPublish o
  | witnessSetProperties o => exact h.witnessSetProperties o
  | updateMedianFeed => exact h.updateMedianFeed haligned
  | elsewhere t => exact .ensure fun _ => .pure ⟨h.feeds, h.history⟩

theorem Sound.step (h : x.Sound) {c : Call} (haligned : AlignedAt x c) : (x.step c).Sound := by
  have hreturns := h.perform haligned
  unfold Feeds.step
  cases hresult : x.perform c with
  | error e => exact h
  | ok x' => exact hreturns x' hresult

theorem Windowed.updateMedianFeed (h : x.Windowed) : Returns x.updateMedianFeed Windowed := by
  intro x' hx'
  unfold Feeds.updateMedianFeed at hx'
  by_cases hdue : x.due = true
  · rw [if_pos hdue] at hx'
    obtain ⟨feeds, -, hx'⟩ := bind_eq_ok.mp hx'
    by_cases henough : minFeeds ≤ feeds.length
    · rw [if_pos henough] at hx'
      obtain ⟨m, -, -, -, -, -, hhistory, -⟩ := updateFrom_spec x _ x' hx'
      unfold Windowed
      rw [hhistory]
      exact length_pushPrice m h
    · rw [if_neg henough] at hx'
      rw [← pure_eq_ok.mp hx']
      exact h
  · rw [if_neg hdue] at hx'
    cases hx'
    exact h

/-- Only an update adds to the history. -/
theorem Windowed.perform (h : x.Windowed) (c : Call) : Returns (x.perform c) Windowed := by
  cases c with
  | feedPublish o =>
      unfold Feeds.perform Feeds.feedPublish
      exact .bind_any fun _ => .ensure fun _ => .bind_any fun _ => .ensure fun _ =>
        .bind_any fun _ => .pure h
  | witnessSetProperties o =>
      unfold Feeds.perform Feeds.witnessSetProperties
      exact .bind_any fun _ => .ensure fun _ => .bind_any fun _ => .ensure fun _ =>
        .bind_any fun _ => .pure h
  | updateMedianFeed => exact h.updateMedianFeed
  | elsewhere t => exact .ensure fun _ => .pure h

theorem Windowed.step (h : x.Windowed) (c : Call) : (x.step c).Windowed := by
  have hreturns := h.perform c
  unfold Feeds.step
  cases hresult : x.perform c with
  | error e => exact h
  | ok x' => exact hreturns x' hresult

end Feeds

end Gamebank.Feed
