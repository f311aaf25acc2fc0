import IoBase.ArtificialEvent
import IoBase.CallResult
import IoBase.CriticalSection
import IoBase.DelaySchedule
import IoBase.DoneEvent
import IoBase.EvenLoop
import IoBase.EvenWait
import IoBase.Event
import IoBase.Fifo
import IoBase.IdleLoop
import IoBase.Interest
import IoBase.IteratorStability
import IoBase.ListenerCalls
import IoBase.LockedPosts
import IoBase.MapFailures
import IoBase.MapRefinement
import IoBase.NextIteration
import IoBase.OneShot
import IoBase.PendingFlag
import IoBase.PendingPushes
import IoBase.PostingOrder
import IoBase.Quit
import IoBase.ReadyList
import IoBase.Signaler
import IoBase.SocketFailures
import IoBase.SocketWakeUp
import IoBase.StackTrace
import IoBase.StrandedCall
import IoBase.TimedWait
import IoBase.TimerExpiry
import IoBase.WaitEpoll
import IoBase.WaitPoll
import IoBase.WaitReturns
import IoBase.WaitSelect
import IoBase.WakeUp
import IoBase.WakeUpEpoll
import IoBase.WakeUpPoll
import IoBase.WakeUpSelect
