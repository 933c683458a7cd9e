import MessagePassing.Foundation.LockOrder
import MessagePassing.System.Model
import Mathlib.Data.Fintype.Order

/-! # The locking discipline

What each operation locks and unlocks, in the order of the source. Three operations write
to the log while they hold a mutex of their own: `applyAging`, `enqueue` and
`registerProcess`. The log's mutex is the only one locked inside another, and nothing is
locked inside it, so two levels order all mutexes (`Locking.Operation.nests`) and no run of
any threads gets stuck (`deadlockFree`).
-/

namespace MessagePassing

open LockOrder Transition

variable {Q : PriorityQueue (Message Ticket) MessageComparator}

namespace Locking

/-- The program's mutexes; a process has one for its inbox and one for its state. -/
inductive Mutex
  | registryMutex
  | schedulerMutex
  | queueMutex (ownerID : ℤ)
  | stateMutex (processID : ℤ)
  | logMutex
  deriving DecidableEq

abbrev Code := List (Instruction Mutex)

/-! ## What the operations lock -/

def log : Code := guarded .logMutex []

def getRecentLogs : Code := guarded .logMutex []

def printStats : Code := guarded .logMutex []

def addMessage : Code := guarded .schedulerMutex []

def getNextMessage : Code := guarded .schedulerMutex []

/-- One record is written for each message boosted. -/
def applyAging (scheduler : Scheduler Ticket) : Code :=
  guarded .schedulerMutex ((System.agingRecords scheduler).flatMap fun _ => log)

def pendingCount : Code := guarded .schedulerMutex []

def enqueue (queue : MessageQueue Q) : Code :=
  guarded (.queueMutex queue.ownerID)
    (if Q.size queue.pq ≥ Config.maxQueueSize then log else [])

def nonBlockingReceive (ownerID : ℤ) : Code := guarded (.queueMutex ownerID) []

def size (ownerID : ℤ) : Code := guarded (.queueMutex ownerID) []

def getSnapshot (ownerID : ℤ) : Code := guarded (.queueMutex ownerID) []

def setState (processID : ℤ) : Code := guarded (.stateMutex processID) []

def registerProcess : Code := guarded .registryMutex log

def getProcess : Code := guarded .registryMutex []

def getProcessCount : Code := guarded .registryMutex []

def sendMessage (drop : Bool) : Code := if drop then log else addMessage ++ log

/-- An iteration, by the count of iterations, what the scheduler holds when it is aged, the
message picked, and the inbox of its receiver as it is found. -/
def dispatchLoop (agingTimer : ℕ) (scheduler : Scheduler Ticket) (msg : Option (Message Ticket))
    (target : Option (MessageQueue Q)) : Code :=
  (if agingTimer + 1 ≥ Dispatch.agingPeriod then applyAging scheduler else []) ++
    getNextMessage ++
      match msg with
      | none => []
      | some _ =>
          getProcess ++
            match target with
            | some queue => enqueue queue ++ log -- delivered or not, it is logged
            | none => log

/-- The operations, with what decides their branches. -/
inductive Operation (Q : PriorityQueue (Message Ticket) MessageComparator)
  | addMessage
  | getNextMessage
  | applyAging (scheduler : Scheduler Ticket)
  | pendingCount
  | enqueue (queue : MessageQueue Q)
  | nonBlockingReceive (ownerID : ℤ)
  | size (ownerID : ℤ)
  | getSnapshot (ownerID : ℤ)
  | sendMessage (drop : Bool)
  | registerProcess
  | getProcess
  | getProcessCount
  | dispatchLoop (agingTimer : ℕ) (scheduler : Scheduler Ticket) (msg : Option (Message Ticket))
      (target : Option (MessageQueue Q))
  | setState (processID : ℤ)
  | log
  | getRecentLogs
  | printStats

def Operation.code : Operation Q → Code
  | addMessage => Locking.addMessage
  | getNextMessage => Locking.getNextMessage
  | applyAging scheduler => Locking.applyAging scheduler
  | pendingCount => Locking.pendingCount
  | enqueue queue => Locking.enqueue queue
  | nonBlockingReceive ownerID => Locking.nonBlockingReceive ownerID
  | size ownerID => Locking.size ownerID
  | getSnapshot ownerID => Locking.getSnapshot ownerID
  | sendMessage drop => Locking.sendMessage drop
  | registerProcess => Locking.registerProcess
  | getProcess => Locking.getProcess
  | getProcessCount => Locking.getProcessCount
  | dispatchLoop agingTimer scheduler msg target =>
      Locking.dispatchLoop agingTimer scheduler msg target
  | setState processID => Locking.setState processID
  | log => Locking.log
  | getRecentLogs => Locking.getRecentLogs
  | printStats => Locking.printStats

/-! ## The order -/

/-- Whether the mutex may be locked inside the others. -/
def Mutex.inner : Mutex → Bool
  | logMutex => true
  | _ => false

/-- A scope that locks nothing else, outside of all others. -/
theorem nests_scope (mutex : Mutex) : Nests Mutex.inner [] (guarded mutex []) [] :=
  .guarded (fun _ absent => (List.not_mem_nil absent).elim) (.nil _ _)

/-- The log may be written to under any mutex but its own. -/
theorem nests_log {held : List Mutex} (outer : ∀ mutex ∈ held, mutex.inner < true) :
    Nests Mutex.inner held log held :=
  .guarded outer (.nil _ _)

theorem nests_log_alone : Nests Mutex.inner [] log [] := nests_scope .logMutex

/-- A scope of a mutex other than the log's, inside which the log may be written to. -/
theorem nests_logging {mutex : Mutex} (outer : mutex ≠ .logMutex) {body : Code}
    (nests : (∀ other ∈ [mutex], other.inner < true) →
      Nests Mutex.inner [mutex] body [mutex]) :
    Nests Mutex.inner [] (guarded mutex body) [] := by
  refine .guarded (fun _ absent => (List.not_mem_nil absent).elim) (nests ?_)
  intro other member
  rw [List.mem_singleton.mp member]
  cases mutex with
  | logMutex => exact absurd rfl outer
  | _ => exact Bool.false_lt_true

theorem nests_applyAging (scheduler : Scheduler Ticket) :
    Nests Mutex.inner [] (applyAging scheduler) [] :=
  nests_logging Mutex.noConfusion fun outer => .flatMap fun _ _ => nests_log outer

theorem nests_enqueue (queue : MessageQueue Q) : Nests Mutex.inner [] (enqueue queue) [] := by
  refine nests_logging Mutex.noConfusion fun outer => ?_
  split
  · exact nests_log outer
  · exact .nil _ _

theorem nests_registerProcess : Nests Mutex.inner [] registerProcess [] :=
  nests_logging Mutex.noConfusion nests_log

theorem nests_sendMessage (drop : Bool) : Nests Mutex.inner [] (sendMessage drop) [] := by
  unfold sendMessage
  split
  · exact nests_log_alone
  · exact (nests_scope .schedulerMutex).append nests_log_alone

theorem nests_dispatchLoop (agingTimer : ℕ) (scheduler : Scheduler Ticket)
    (msg : Option (Message Ticket)) (target : Option (MessageQueue Q)) :
    Nests Mutex.inner [] (dispatchLoop agingTimer scheduler msg target) [] := by
  have aging : Nests Mutex.inner []
      (if agingTimer + 1 ≥ Dispatch.agingPeriod then applyAging scheduler else []) [] := by
    split
    · exact nests_applyAging scheduler
    · exact .nil _ _
  apply (aging.append (nests_scope .schedulerMutex)).append
  cases msg with
  | none => exact .nil _ _
  | some msg =>
      apply (nests_scope .registryMutex).append
      cases target with
      | none => exact nests_log_alone
      | some queue => exact (nests_enqueue queue).append nests_log_alone

/-- Every operation locks in order. -/
theorem Operation.nests (operation : Operation Q) : Nests Mutex.inner [] operation.code [] := by
  cases operation with
  | applyAging scheduler => exact nests_applyAging scheduler
  | enqueue queue => exact nests_enqueue queue
  | sendMessage drop => exact nests_sendMessage drop
  | registerProcess => exact nests_registerProcess
  | dispatchLoop agingTimer scheduler msg target =>
      exact nests_dispatchLoop agingTimer scheduler msg target
  | _ => exact nests_scope _

end Locking

/-- **Deadlock freedom.** In every state that any threads reach by executing any operations
in any interleaving of their locking and unlocking: no thread is to lock a mutex it holds, no
threads wait for each other's mutexes in a cycle, and behind every thread inside an operation
is one that can take its next step. -/
theorem deadlockFree {T : Type*} [DecidableEq T]
    {acts : List (LockOrder.Action T (Locking.Operation Q))}
    {s : LockOrder.State T Locking.Mutex}
    (run : exec (LockOrder.State.step Locking.Operation.code) .initial acts = some s) :
    (∀ thread mutex, s.Wants thread mutex → s.holder mutex ≠ some thread) ∧
      (∀ thread, ¬ Relation.TransGen s.WaitsFor thread thread) ∧
      ∀ thread, s.program thread ≠ [] → ∃ other,
        Relation.ReflTransGen s.WaitsFor thread other ∧ s.program other ≠ [] ∧
          ∃ next, s.run other = some next := by
  obtain ⟨held, disciplined⟩ := disciplined_run Locking.Operation.nests run
  refine ⟨fun _ _ => disciplined.not_holder, disciplined.acyclic, fun thread inside => ?_⟩
  obtain ⟨other, chain, enabled⟩ := disciplined.exists_enabled inside
  obtain ⟨next, taken⟩ := Option.isSome_iff_exists.mp enabled
  refine ⟨other, chain, fun outside => ?_, next, taken⟩
  simp only [State.run, outside, Option.isSome_none, Bool.false_eq_true] at enabled

/-- A thread waits for the scheduler, which is being aged by one that waits for the log,
which a third thread is writing to. -/
theorem deadlockFree_chain :
    let waiting : Message Ticket := { Message.default with agingCounter := 5 }
    let aged : Scheduler Ticket := { pendingMessages := [waiting], agingEventCount := 0 }
    let acts : List (LockOrder.Action ℕ
        (Locking.Operation (PriorityQueue.scanned MessageComparator))) :=
      [.start 1 .log, .run 1, .start 2 (.applyAging aged), .run 2, .start 3 .addMessage]
    ∃ s, exec (LockOrder.State.step Locking.Operation.code) .initial acts = some s ∧
      s.WaitsFor 3 2 ∧ s.Wants 2 .logMutex ∧ s.holder .logMutex = some 1 ∧
      s.holder .schedulerMutex = some 2 ∧
      (∀ thread, ¬ Relation.TransGen s.WaitsFor thread thread) ∧
      ∃ other, Relation.ReflTransGen s.WaitsFor 3 other ∧ ∃ next, s.run other = some next := by
  intro waiting aged acts
  have reached : (exec (LockOrder.State.step Locking.Operation.code) .initial acts).any
      (fun s => decide (s.holder .logMutex = some 1 ∧ s.holder .schedulerMutex = some 2 ∧
        (s.program 2).head? = some (.lock .logMutex) ∧
        (s.program 3).head? = some (.lock .schedulerMutex))) = true := by
    decide +kernel
  obtain ⟨s, run, facts⟩ := (Option.any_eq_true _ _).mp reached
  obtain ⟨writes, ages, toLog, toAdd⟩ := of_decide_eq_true facts
  obtain ⟨record, logs⟩ := List.head?_eq_some_iff.mp toLog
  obtain ⟨scope, adds⟩ := List.head?_eq_some_iff.mp toAdd
  obtain ⟨-, acyclic, progress⟩ := deadlockFree run
  obtain ⟨other, chain, -, enabled⟩ := progress 3 (adds ▸ List.cons_ne_nil _ _)
  exact ⟨s, run, ⟨.schedulerMutex, ⟨scope, adds⟩, ages⟩, ⟨record, logs⟩, writes, ages, acyclic,
    other, chain, enabled⟩

end MessagePassing
