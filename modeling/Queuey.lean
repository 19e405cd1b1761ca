import Queuey.Library.Transition
import Queuey.Library.Interaction
import Queuey.Core.Envelope
import Queuey.Library.Record
import Queuey.Core.Wire
import Queuey.Core.Queue
import Queuey.Core.Dispatch
import Queuey.Core.Settlement
import Queuey.Rabbit.Lapin
import Queuey.Rabbit.Exclusivity
import Queuey.Rabbit.PublishBeforeAck
import Queuey.Rabbit.HoldSurvival
import Queuey.Rabbit.Replay
import Queuey.Rabbit.CloseFinal
import Queuey.Core.WorkerRun
import Queuey.Core.Shutdown
import Queuey.Library.Ledger
import Queuey.Core.Memory
import Queuey.Core.MemorySteps
import Queuey.Core.MemoryPlaces
import Queuey.Core.Conservation
import Queuey.Core.Effects
import Queuey.Core.RacingClose
import Queuey.Core.Succession
import Queuey.Core.GivingBack
import Queuey.Library.StableQueue
import Queuey.Library.Tally
import Queuey.Rabbit.PoolBound
import Queuey.Rabbit.Generation
import Queuey.Rabbit.Declare
import Queuey.Rabbit.DeclareReplay
import Queuey.Rabbit.Recovery
import Queuey.Rabbit.StreamEnd
import Queuey.Rabbit.Pacing
import Queuey.Macros.Retry
import Queuey.Rabbit.Healthy
import Queuey.Rabbit.DerivedRetry
import Queuey.Library.RoundUp
import Queuey.Rabbit.HoldDelay
import Queuey.Library.NumberedName
import Queuey.Rabbit.HoldName
import Queuey.Rabbit.Redeclare
import Queuey.Core.HoldCount
import Queuey.Core.Wakeups
import Queuey.Core.Prefetch
import Queuey.Core.PriorityOrder
import Queuey.Core.HandlerTask
import Queuey.Core.ConcurrencyCap
import Queuey.Core.Builder
import Queuey.Core.Delays
import Queuey.Rabbit.EveryDelay
import Queuey.Core.CallSteps
import Queuey.Core.Deliveries
import Queuey.Core.JobChain
import Queuey.Core.JobRecords
import Queuey.Library.KeyList
import Queuey.Library.Utf8
import Queuey.Macros.DerivedSet
import Queuey.Macros.DurationLiteral
import Queuey.Macros.RetryGrammar
import Queuey.Rabbit.MessageTtl
import Queuey.Rabbit.BackoffCap
import Queuey.Rabbit.ClosingSleep
import Queuey.Rabbit.ClosingCalls
import Queuey.Rabbit.Malformed
import Queuey.Rabbit.QueueFamilies
import Queuey.Rabbit.ConsumerTag
import Queuey.Rabbit.AtLeastOnce
import Queuey.Rabbit.Provenance
import Queuey.Rabbit.Redelivery
import Queuey.Rabbit.PublishEnds
import Queuey.Core.HandingOver
import Queuey.Core.RunOutcome
import Queuey.Core.Registry
import Queuey.Core.ClosedBackend
import Queuey.Macros.DerivedJob
import Queuey.Core.BuildOutcome
import Queuey.Core.HookReport
import Queuey.Library.HeadQueue
import Queuey.Rabbit.HeadExpiry
import Queuey.Rabbit.HoldExact
