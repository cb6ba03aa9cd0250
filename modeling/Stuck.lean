import Stuck.TransitionSystem
import Stuck.Census
import Stuck.OneShot
import Stuck.EdgeTrigger
import Stuck.TimingWheel
import Stuck.WaitQueue
import Stuck.SharedTypes
import Stuck.ParallelChannel
import Stuck.ParallelChannelSteps
import Stuck.ParallelChannelMoves
import Stuck.ParallelChannelCalls
import Stuck.ParallelChannelMarks
import Stuck.ParallelChannelPermits
import Stuck.ParallelChannelLevels
import Stuck.ParallelChannelWakeups
import Stuck.ParallelChannelUnwatch
import Stuck.ParallelChannelOrder
import Stuck.ParallelChannelEnd
import Stuck.ParallelChannelBalance
import Stuck.ParallelChannels
import Stuck.Session
import Stuck.SessionInvariant
import Stuck.SessionOutcome
import Stuck.Suspension
import Stuck.SuspensionWakeups
import Stuck.SerialChannel
import Stuck.SerialChannelQueues
import Stuck.SerialChannelPermits
import Stuck.SerialChannelWaiters
import Stuck.ChannelHandles
import Stuck.ChannelAgreement
import Stuck.Time
import Stuck.TimeExact
import Stuck.TimeOverdue
import Stuck.Sleep
import Stuck.SleepPunctual
import Stuck.Tasks
import Stuck.TaskMoves
import Stuck.TaskCompletion
import Stuck.Scheduler
import Stuck.SchedulerSteps
import Stuck.TaskResidency
import Stuck.TaskContext
import Stuck.TaskTurns
import Stuck.SessionWaits
import Stuck.UninterruptibleWaits
import Stuck.WinningWakers
import Stuck.AbortStarvation
import Stuck.TaskRelease
import Stuck.Shutdown
import Stuck.TimeStable
import Stuck.TimeChecked
import Stuck.ThreadParker
import Stuck.ThreadParkerOnce
import Stuck.ParallelChannelPanics
import Stuck.SessionCell
import Stuck.Select
import Stuck.SelectWatch
import Stuck.HandleCounting
import Stuck.ParallelChannelClosing
import Stuck.SerialChannelClosing
import Stuck.ChannelCounts
import Stuck.PendingTable
import Stuck.Uring
import Stuck.UringLedger
import Stuck.UringInvariant
import Stuck.UringRequests
import Stuck.NetRegistry
import Stuck.NetEvents
import Stuck.NetTokens
import Stuck.NetReadiness
import Stuck.NetWakeups
import Stuck.NetRetries
import Stuck.Settling
import Stuck.UringServe
import Stuck.UringServeEnd
import Stuck.IoPool
import Stuck.FileOperations
import Stuck.SelectMacro
import Stuck.SelectMacroMeaning
import Stuck.FifoQueues
import Stuck.LinkedLists
import Stuck.TaskFairness
import Stuck.TaskJoin
import Stuck.SerialChannelOrder
import Stuck.TimerNodes
import Stuck.TimerNodesRefinement
import Stuck.TimerNodesRelease
