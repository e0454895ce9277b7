import Gamebank.Lib.IdMap
import Gamebank.Lib.SnapshotStack
import Gamebank.Lib.Action
import Gamebank.Lib.Runs
import Gamebank.Lib.Greedy
import Gamebank.Lib.OrderedIndex
import Gamebank.Lib.Checked
import Gamebank.Lib.Table
import Gamebank.Lib.Forest
import Gamebank.Lib.ProRata
import Gamebank.Lib.Rank
import Gamebank.Chainbase.MultiIndex
import Gamebank.Chainbase.GenericIndex
import Gamebank.Chainbase.Session
import Gamebank.Chainbase.Undo
import Gamebank.Chainbase.Squash
import Gamebank.Chainbase.Refinement
import Gamebank.Chain.Block
import Gamebank.Chain.ForkDatabase
import Gamebank.Chain.ForkTree
import Gamebank.Chain.Objects
import Gamebank.Chain.Node
import Gamebank.Chain.Frames
import Gamebank.Chain.Revision
import Gamebank.Chain.Irreversibility
import Gamebank.Chain.Finality
import Gamebank.Chain.Replay
import Gamebank.Chain.ForkFrames
import Gamebank.Chain.ForkSwitch
import Gamebank.Chain.ForkHead
import Gamebank.Chain.ForkBranches
import Gamebank.Chain.ForkPruning
import Gamebank.Chain.ForkIntegrity
import Gamebank.Chain.FailedBlock
import Gamebank.Chain.BlockLookup
import Gamebank.Chain.Routines
import Gamebank.Chain.Transactions
import Gamebank.Chain.Deduplication
import Gamebank.Chain.Pending
import Gamebank.Protocol.Asset
import Gamebank.Protocol.Validation
import Gamebank.Crowdfunding.State
import Gamebank.Crowdfunding.Cases
import Gamebank.Crowdfunding.Expiry
import Gamebank.Crowdfunding.Settlement
import Gamebank.Crowdfunding.Investing
import Gamebank.Ledger.Objects
import Gamebank.Ledger.Balances
import Gamebank.Ledger.Voting
import Gamebank.Ledger.Vesting
import Gamebank.Ledger.WitnessSchedule
import Gamebank.Ledger.Calls
import Gamebank.Stake.Frames
import Gamebank.Stake.Books
import Gamebank.Stake.Tally
import Gamebank.Stake.TallyRuns
import Gamebank.Stake.Power
import Gamebank.Stake.Delegations
import Gamebank.Stake.Accounts
import Gamebank.Stake.PowerDown
import Gamebank.Stake.Witnesses
import Gamebank.Stake.VirtualTime
import Gamebank.Stake.Rounds
import Gamebank.Stake.Totals
import Gamebank.Stake.Completions
import Gamebank.Stake.Withdrawals
import Gamebank.Stake.DueWithdrawals
import Gamebank.Stake.Instalments
import Gamebank.Stake.Delegating
import Gamebank.Stake.Reclaiming
import Gamebank.Ledger.NonfungibleFunds
import Gamebank.Ledger.Credits
import Gamebank.Funds.Sales
import Gamebank.Ledger.Contracts
import Gamebank.Contract.Bandwidth
import Gamebank.Contract.Names
import Gamebank.Contract.Deployments
import Gamebank.Contract.SavedData
import Gamebank.Contract.OpcodeLimit
import Gamebank.Contract.Sandbox
import Gamebank.Ledger.Comments
import Gamebank.Discussion.Places
import Gamebank.Discussion.Frames
import Gamebank.Discussion.Counts
import Gamebank.Discussion.Tree
import Gamebank.Discussion.Threads
import Gamebank.Ledger.Market
import Gamebank.Market.Prices
import Gamebank.Market.Matching
import Gamebank.Market.Orders
import Gamebank.Market.Book
import Gamebank.Market.Fills
import Gamebank.Market.Lifetimes
import Gamebank.Ledger.Rewards
import Gamebank.Rewards.Curves
import Gamebank.Rewards.Claims
import Gamebank.Rewards.Votes
import Gamebank.Rewards.Payouts
import Gamebank.Rewards.Solvency
import Gamebank.Chain.Confirmation
import Gamebank.Chain.Slots
import Gamebank.Chain.Producer
import Gamebank.Chain.Quorum
import Gamebank.Ledger.Escrow
import Gamebank.Escrow.Books
import Gamebank.Escrow.Evaluators
import Gamebank.Escrow.Runs
import Gamebank.Lib.ByteStream
import Gamebank.Chain.BlockLog
import Gamebank.Chain.BlockHash
import Gamebank.Lib.PaddedBytes
import Gamebank.Protocol.FixedString
import Gamebank.Protocol.BlockPacking
import Gamebank.Rewards.Inflation
import Gamebank.Rewards.Schedules
import Gamebank.Protocol.Authority
import Gamebank.Protocol.SignState
import Gamebank.Protocol.Approval
import Gamebank.Protocol.Verification
import Gamebank.Lib.Due
import Gamebank.Lib.Keyed
import Gamebank.Recovery.State
import Gamebank.Recovery.Processing
import Gamebank.Recovery.Operations
import Gamebank.Recovery.Runs
import Gamebank.Recovery.Guarantees
import Gamebank.Chain.ForkLinks
import Gamebank.Chain.BlockIds
import Gamebank.P2p.Synopsis
import Gamebank.P2p.Sync
import Gamebank.Discussion.Contents
import Gamebank.Discussion.Edits
import Gamebank.Rewards.Decay
import Gamebank.Protocol.Products
import Gamebank.Rewards.Caps
import Gamebank.Funds.Usability
import Gamebank.Rewards.Ballots
import Gamebank.Rewards.Turns
import Gamebank.Rewards.VoteCounts
import Gamebank.Rewards.CurationWeights
import Gamebank.Lib.HashTree
import Gamebank.Protocol.Merkle
import Gamebank.Chain.Participation
import Gamebank.Plugins.ReserveRatio
import Gamebank.Plugins.ForumBandwidth
import Gamebank.Protocol.SymbolType
import Gamebank.Protocol.ExactProducts
import Gamebank.Lib.Median
import Gamebank.Feed.State
import Gamebank.Feed.Robust
import Gamebank.Lib.IndexedFile
import Gamebank.Chain.ContractLog
import Gamebank.Chain.ContractReopening
import Gamebank.Ledger.Savings
import Gamebank.Savings.Balances
import Gamebank.Savings.Requests
import Gamebank.Savings.Withdrawals
import Gamebank.Lib.Shrink
import Gamebank.Protocol.MinimalSignatures
import Gamebank.Protocol.LookedAt
import Gamebank.Protocol.Candidates
import Gamebank.Lib.Separated
import Gamebank.Protocol.NameGrammar
import Gamebank.Protocol.WideNumbers
import Gamebank.Rewards.WideCurves
import Gamebank.Lib.WeakOrder
import Gamebank.Protocol.PriceOrder
import Gamebank.Lib.Decimal
import Gamebank.Plugins.LegacyAsset
import Gamebank.Plugins.LegacyWriting
import Gamebank.Lib.Reader
import Gamebank.Lib.SortedVector
import Gamebank.Lib.Wire
import Gamebank.Lib.ByteTree
import Gamebank.Protocol.RawFormat
import Gamebank.Protocol.OperationFormat
import Gamebank.Protocol.PackedBlocks
import Gamebank.Protocol.Digests
import Gamebank.Chain.Tapos
import Gamebank.Chain.Shutdown
import Gamebank.Chain.SkippedChecks
import Gamebank.Chain.Reindex
import Gamebank.Ledger.Hardforks
import Gamebank.Conservation.Check
import Gamebank.Stake.VoteCheck
import Gamebank.Lib.Stateful
import Gamebank.Escrow.Balances
