import Gamebank.Ledger.Calls
import Gamebank.Lib.Median
import Gamebank.Protocol.Validation

/-!
# The price feed

Witnesses publish prices; once an hour `update_median_feed` takes the middle of
the fresh ones among the scheduled witnesses into the history, and the middle
of the history, capped by the supply of GBD, is the price of the chain. The
ledger holds that price as its `currentMedianHistory`; the published prices and
the history are beside it.
-/

namespace Gamebank.Feed

open Gamebank.Lib Gamebank.Protocol Gamebank.Ledger

/-- `GAMEBANK_FEED_INTERVAL_BLOCKS` -/
def feedIntervalBlocks : Nat := 1200

/-- `GAMEBANK_FEED_HISTORY_WINDOW` -/
def feedHistoryWindow : Nat := 84

/-- `GAMEBANK_MAX_FEED_AGE_SECONDS` -/
def maxFeedAgeSeconds : Nat := 604800

/-- `GAMEBANK_MIN_FEEDS` -/
def minFeeds : Nat := 7

/-- What a witness has published. -/
structure WitnessFeed where
  gbdExchangeRate : Price
  lastGbdExchangeUpdate : Nat
deriving DecidableEq

structure Feeds where
  ledger : Database
  feedOf : AccountName → WitnessFeed
  priceHistory : List Price

/-- Nothing has been published. -/
def Feeds.start (s : Database) : Feeds := ⟨s, fun _ => ⟨.empty, 0⟩, []⟩

/-! ## Publishing -/

/-- A pair of GBC and GBD. -/
def gbdPrice (p : Price) : Bool := p.base.isAssetType .gbd && p.quote.isAssetType .gbc

def gbcPrice (p : Price) : Bool := p.base.isAssetType .gbc && p.quote.isAssetType .gbd

/-- `feed_publish_operation`; amounts are of type `int64_t`. -/
structure FeedPublishOperation where
  publisher : AccountName
  exchangeRate : Price
  base_fits : fitsInt64 exchangeRate.base.amount = true
  quote_fits : fitsInt64 exchangeRate.quote.amount = true

namespace Feeds

/-- The new price of a witness. -/
def setFeed (x : Feeds) (owner : AccountName) (rate : Price) : Feeds :=
  { x with
    feedOf := fun name =>
      if name = owner then ⟨rate, x.ledger.headBlockTime⟩ else x.feedOf name }

/-- `feed_publish_operation::validate` and `feed_publish_evaluator::do_apply`. -/
def feedPublish (x : Feeds) (o : FeedPublishOperation) : Except String Feeds := do
  validateAccountName o.publisher
  ensure (gbcPrice o.exchangeRate || gbdPrice o.exchangeRate) "Price feed must be a GBC/GBD price"
  o.exchangeRate.validate
  ensure (!x.ledger.hardfork01 || gbdPrice o.exchangeRate) "Price feed must be a GBD/GBC price"
  let witness ← x.ledger.getWitness o.publisher
  return x.setFeed witness.owner o.exchangeRate

/-- What `witness_set_properties` does with a `gbd_exchange_rate`. -/
def witnessSetProperties (x : Feeds) (o : FeedPublishOperation) : Except String Feeds := do
  validateAccountName o.publisher
  ensure (gbdPrice o.exchangeRate) "Price feed must be a GBC/GBD price"
  o.exchangeRate.validate
  ensure x.ledger.hardfork01 "witness_set_properties_evaluator not enabled until HF 20"
  let witness ← x.ledger.getWitness o.publisher
  return x.setFeed witness.owner o.exchangeRate

/-! ## The median -/

/-- Published within the last week, and not null. -/
def isFresh (now : Nat) (f : WitnessFeed) : Bool :=
  now < f.lastGbdExchangeUpdate + maxFeedAgeSeconds && !f.gbdExchangeRate.isNull

/-- The prices of the scheduled witnesses that are taken, each with its witness. -/
def freshFeeds (x : Feeds) : Except String (List (AccountName × Price)) := do
  let wso := x.ledger.schedule
  let scheduled ← (wso.currentShuffledWitnesses.toList.take wso.numScheduledWitnesses).mapM
    fun name => do
      let wit ← x.ledger.getWitness name
      return (wit.owner, x.feedOf wit.owner)
  let fresh := scheduled.filter fun e => isFresh x.ledger.headBlockTime e.2
  return fresh.map fun e => (e.1, e.2.gbdExchangeRate)

/-- `std::sort` with `operator <`. -/
def sorted (prices : List Price) : List Price := prices.mergeSort fun p q => !q.lt p

/-- `push_back`, and `pop_front` beyond the window. -/
def pushPrice (history : List Price) (p : Price) : List Price :=
  if feedHistoryWindow < (history ++ [p]).length then (history ++ [p]).tail else history ++ [p]

/-- `min_price`: nine times the GBD for all the GBC. -/
def minPrice (s : Database) : Except String Price := do
  ensure (fitsInt64 (9 * s.props.currentGbdSupply)) "overflow"
  Price.make (.gbd (9 * s.props.currentGbdSupply)) (.gbc s.props.currentSupply)

/-- Whether the block is one of those that update the feed. -/
def due (x : Feeds) : Bool := x.ledger.props.headBlockNumber % feedIntervalBlocks = 0

/-- The update from the fresh feeds. -/
def updateFrom (x : Feeds) (feeds : List Price) : Except String Feeds := do
  let medianFeed ← Database.require (middle (sorted feeds))
  let history := pushPrice x.priceHistory medianFeed
  let current ← Database.require (middle (sorted history))
  let minPrice ← minPrice x.ledger
  return { x with
    ledger :=
      { x.ledger with currentMedianHistory := if minPrice.gt current then minPrice else current }
    priceHistory := history }

/-- `update_median_feed`. -/
def updateMedianFeed (x : Feeds) : Except String Feeds :=
  if x.due then do
    let feeds ← x.freshFeeds
    if minFeeds ≤ feeds.length then x.updateFrom (feeds.map Prod.snd) else return x
  else .ok x

/-! ## Runs -/

/-- `elsewhere` is any other change of the ledger, at any time, under any
schedule and in either state of the hardfork; none of them sets the price. -/
inductive Call where
  | feedPublish (o : FeedPublishOperation)
  | witnessSetProperties (o : FeedPublishOperation)
  | updateMedianFeed
  | elsewhere (t : Database)

def perform (x : Feeds) : Call → Except String Feeds
  | .feedPublish o => x.feedPublish o
  | .witnessSetProperties o => x.witnessSetProperties o
  | .updateMedianFeed => x.updateMedianFeed
  | .elsewhere t => do
      ensure (t.currentMedianHistory = x.ledger.currentMedianHistory) "elsewhere"
      return { x with ledger := t }

/-- One that throws is undone. -/
def step (x : Feeds) (c : Call) : Feeds := attempt x (x.perform c)

end Feeds

end Gamebank.Feed
