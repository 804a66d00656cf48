import GreenAgent.Lib.Merkle
import GreenAgent.Lib.Radix
import GreenAgent.Lib.KnownHash
import GreenAgent.Lib.HashMap
import GreenAgent.Mpf.Recorded
import GreenAgent.Mpf.Insertion
import GreenAgent.Mpf.Soundness
import GreenAgent.Account.Observe
import GreenAgent.Account.View
import GreenAgent.Account.Ledger
import GreenAgent.Account.Invariant
import GreenAgent.Account.Identity
import GreenAgent.Account.Rollback
import GreenAgent.Account.Plans
import GreenAgent.Account.Batch
import GreenAgent.Account.Reorg
import GreenAgent.Account.Concurrency
import GreenAgent.Account.Intact
import GreenAgent.Account.Persistence
import GreenAgent.Account.Recovery
import GreenAgent.Account.Steady
import GreenAgent.Account.Replay
import GreenAgent.Book.Types
import GreenAgent.Book.State
import GreenAgent.Book.Core
import GreenAgent.Book.Attempt
import GreenAgent.Book.Steps
import GreenAgent.Book.Sound
import GreenAgent.Book.Passes
import GreenAgent.Lib.Totals
import GreenAgent.Book.Run
import GreenAgent.Lib.U64
import GreenAgent.Green.Order
import GreenAgent.Green.Lawful
import GreenAgent.Pools.Royalty
import GreenAgent.Green.Fee
import GreenAgent.Book.Linked
import GreenAgent.Book.Finalize
import GreenAgent.Book.Retry
import GreenAgent.Book.Heads
import GreenAgent.Book.Termination
import GreenAgent.Book.Conservation
import GreenAgent.Green.LimitPrice
import GreenAgent.Green.Termination
import GreenAgent.Engine.Index
import GreenAgent.Engine.Executor
import GreenAgent.Engine.Runs
import GreenAgent.Engine.Isolation
import GreenAgent.Cardano.Output
import GreenAgent.Green.Admission
import GreenAgent.Engine.Identity
import GreenAgent.Book.Restore
import GreenAgent.Green.Priority
import GreenAgent.Lib.Tracked
import GreenAgent.Pools.Machine
import GreenAgent.Pools.Solvency
import GreenAgent.Cardano.PlutusData
import GreenAgent.Pools.Ledger
import GreenAgent.Pools.Safety
import GreenAgent.Pools.Transition
import GreenAgent.Book.Trace
import GreenAgent.Book.Commit
import GreenAgent.Engine.Poll
import GreenAgent.Engine.Handler
import GreenAgent.Engine.Slots
import GreenAgent.Engine.History
import GreenAgent.Engine.Spoofing
import GreenAgent.Engine.Unspent
import GreenAgent.Lib.Code
import GreenAgent.Account.Encoding
import GreenAgent.Account.Written
import GreenAgent.Account.Integrity
import GreenAgent.Account.Replanning
import GreenAgent.Account.Structure
import GreenAgent.Lib.Sorting
import GreenAgent.Cardano.Quantity
import GreenAgent.Tx.Blueprint
import GreenAgent.Tx.Position
import GreenAgent.Tx.Exec
import GreenAgent.Tx.Steps
import GreenAgent.Tx.Spends
import GreenAgent.Book.Members
import GreenAgent.Lib.Traverse
import GreenAgent.Account.Stock
import GreenAgent.Tx.Continuations
import GreenAgent.Lib.Loop
import GreenAgent.Lib.Curve
import GreenAgent.Tx.Interpreter
import GreenAgent.Tx.FeeCorrection
import GreenAgent.Tx.Budgets
import GreenAgent.Tx.Residue
import GreenAgent.Book.Selection
import GreenAgent.Book.Clock
import GreenAgent.Book.Chunk
import GreenAgent.Book.Settlement
import GreenAgent.Pools.Aggregate
import GreenAgent.Tx.AccountDatum
import GreenAgent.Chain.EventSource
import GreenAgent.Chain.Follows
import GreenAgent.Engine.Funding
import GreenAgent.Engine.CircularFilter
import GreenAgent.Lib.PriorityQueue
import GreenAgent.Engine.Backlog
import GreenAgent.Engine.IndexKeys
import GreenAgent.Chain.Resume
import GreenAgent.Chain.AtomicFlow
