import Dispatch.Config.Json
import Dispatch.Engine.Crew
import Dispatch.OnceMap
import Dispatch.Pool.Thread
import Dispatch.ReferenceCounter.Thread
import Dispatch.Signal.Thread
import Dispatch.Proofs.HolderTable
import Dispatch.Proofs.PriorityQueue
import Dispatch.Proofs.WaitingLists
import Dispatch.Proofs.Engine
import Dispatch.Proofs.Effect
import Dispatch.Proofs.Exclusion
import Dispatch.Proofs.Fate
import Dispatch.Proofs.Waiters
import Dispatch.Engine.Interleaving
import Dispatch.Proofs.Ownership
import Dispatch.Proofs.Interleaving
import Dispatch.Proofs.Undisturbed
import Dispatch.Proofs.QueueOperations
import Dispatch.Proofs.QueueOrder
import Dispatch.Proofs.Search
import Dispatch.Proofs.Faultless
import Dispatch.Proofs.Execution
import Dispatch.Proofs.Drain
import Dispatch.Proofs.Contention
import Dispatch.Proofs.Course
import Dispatch.Proofs.Roll
import Dispatch.Proofs.CounterEnding
import Dispatch.Proofs.CounterListeners
import Dispatch.Proofs.SignalEnding
import Dispatch.Proofs.SignalEvents
import Dispatch.Proofs.SignalHistory
import Dispatch.Proofs.SignalListeners
import Dispatch.Proofs.PoolAccount
import Dispatch.Proofs.PoolMoves
import Dispatch.Proofs.PoolHolders
import Dispatch.Proofs.PoolObjects
import Dispatch.Proofs.ShardOperations
import Dispatch.Proofs.Backlog
import Dispatch.Proofs.FirstExecutable
import Dispatch.PriorityQueue.Interleaving
import Dispatch.Proofs.QueueInterleaving
import Dispatch.Proofs.Statistics
import Dispatch.Proofs.Tally
import Dispatch.Proofs.TableOperations
import Dispatch.Proofs.Calls
import Dispatch.Proofs.Handles
import Dispatch.Proofs.Release
import Dispatch.Proofs.Accounting
import Dispatch.Proofs.Rollback
import Dispatch.Proofs.Persistence
import Dispatch.Proofs.Containment
import Dispatch.Proofs.PoolHooks
import Dispatch.Proofs.PoolDiscipline
import Dispatch.Proofs.Shutdown
import Dispatch.Proofs.Atomicity
import Dispatch.Proofs.Placement
import Dispatch.Proofs.Actions
import Dispatch.Proofs.CounterFiring
import Dispatch.Proofs.CounterBalance
import Dispatch.Proofs.OnceMap
import Dispatch.Proofs.QueueEquivalence
import Dispatch.Proofs.IndependentReleases
import Dispatch.Proofs.ClosureRuns
import Dispatch.Proofs.Overrides
import Dispatch.Proofs.Repetitions
