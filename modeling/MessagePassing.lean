import MessagePassing.Foundation.BoundedBag
import MessagePassing.Foundation.LockOrder
import MessagePassing.Foundation.Monitor
import MessagePassing.Foundation.Precedence
import MessagePassing.Foundation.PriorityQueue
import MessagePassing.Foundation.Rejection
import MessagePassing.Foundation.Selection
import MessagePassing.Foundation.StableQueue
import MessagePassing.Foundation.Transition
import MessagePassing.Foundation.WaitSet
import MessagePassing.Foundation.WrappingCounter
import MessagePassing.Message
import MessagePassing.Queue.Basic
import MessagePassing.Queue.Overtaking
import MessagePassing.Queue.Refinement
import MessagePassing.Queue.StressTests
import MessagePassing.Queue.Threads
import MessagePassing.Queue.Wakeup
import MessagePassing.Scheduler.Basic
import MessagePassing.Scheduler.Boosts
import MessagePassing.Scheduler.History
import MessagePassing.Scheduler.KeyedQueue
import MessagePassing.Scheduler.NonOvertaking
import MessagePassing.Scheduler.Order
import MessagePassing.Scheduler.Rivals
import MessagePassing.Scheduler.Threads
import MessagePassing.Dispatcher.Bypass
import MessagePassing.Dispatcher.Demotion
import MessagePassing.Dispatcher.Loop
import MessagePassing.Dispatcher.Urgency
import MessagePassing.System.Accounting
import MessagePassing.System.Audit
import MessagePassing.System.Causality
import MessagePassing.System.Channels
import MessagePassing.System.Conservation
import MessagePassing.System.Delivery
import MessagePassing.System.Ending
import MessagePassing.System.Exit
import MessagePassing.System.Fifo
import MessagePassing.System.Inboxes
import MessagePassing.System.Journeys
import MessagePassing.System.Lifecycle
import MessagePassing.System.Locking
import MessagePassing.System.Logger
import MessagePassing.System.MessageIDs
import MessagePassing.System.Model
import MessagePassing.System.Output
import MessagePassing.System.Process
import MessagePassing.System.Report
import MessagePassing.System.Scheduling
import MessagePassing.System.Senders
import MessagePassing.System.Shutdown
import MessagePassing.System.Statements
import MessagePassing.System.States
import MessagePassing.System.Statistics
import MessagePassing.System.Supervision
import MessagePassing.System.Target
import MessagePassing.System.Turns
import MessagePassing.System.Whereabouts
