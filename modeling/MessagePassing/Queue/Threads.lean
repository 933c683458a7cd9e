import MessagePassing.Foundation.Monitor
import MessagePassing.Queue.Refinement

/-! # The inbox among threads

The member functions of `MessageQueue` statement by statement, each between taking and releasing
`queueMutex`; `notify_one` and waking up are left to `Queue.Wakeup`, a wait that is not over
starts again at any time. Alone each does what its function in `Queue.Basic` says
(`MessageQueue.implements`), so the threads see a bounded priority multiset whose calls happen at
once (`inboxThreadSafe`).
-/

namespace MessagePassing

open Monitor Transition

variable {ι : Type} [Inhabited ι] {Q : PriorityQueue (Message ι) MessageComparator}

/-- The member functions with their arguments. -/
inductive QueueFunction (ι : Type)
  | enqueue (msg : Message ι)
  | blockingReceive
  | nonBlockingReceive (out : Message ι)
  | size
  | isEmpty
  | isFull
  | getSnapshot
  deriving DecidableEq

/-- What they return, one of them also through its parameter. -/
inductive QueueResult (ι : Type)
  | enqueued (accepted : Bool)
  | received (msg : Message ι)
  | tried (received : Bool) (out : Message ι)
  | size (count : ℕ)
  | test (answer : Bool)
  | snapshot (result : List (Message ι))
  deriving DecidableEq

/-- Their statements, with the local variables in use. -/
inductive QueuePoint (Q : PriorityQueue (Message ι) MessageComparator)
  | checkFull (msg : Message ι)
  | logFull (msg : Message ι)
  | push (msg : Message ι)
  | notify
  | wait
  | checkWoken
  | checkEmpty (out : Message ι)
  | top (blocking : Bool)
  | pop (blocking : Bool) (msg : Message ι)
  | size
  | isEmpty
  | isFull
  | copy
  | checkCopy (tempPQ : Q.Carrier) (result : List (Message ι))
  | pushBack (tempPQ : Q.Carrier) (result : List (Message ι))
  | popCopy (tempPQ : Q.Carrier) (result : List (Message ι))

namespace MessageQueue

/-- One statement: the queue after it, what it logs, and how the function goes on. -/
def statement (queue : MessageQueue Q) : QueuePoint Q →
    MessageQueue Q × List String × Outcome (QueuePoint Q) (QueueResult ι)
  | .checkFull msg =>
      if Q.size queue.pq ≥ Config.maxQueueSize then (queue, [], .proceed (.logFull msg))
      else (queue, [], .proceed (.push msg))
  | .logFull msg => (queue, [queue.fullNotice msg], .finish (.enqueued false))
  | .push msg => ({ queue with pq := Q.push queue.pq msg }, [], .proceed .notify)
  | .notify => (queue, [], .finish (.enqueued true))
  | .wait => if queue.ready then (queue, [], .proceed .checkWoken) else (queue, [], .block)
  | .checkWoken =>
      if Q.size queue.pq = 0 then (queue, [], .finish (.received .default))
      else (queue, [], .proceed (.top true))
  | .checkEmpty out =>
      if Q.size queue.pq = 0 then (queue, [], .finish (.tried false out))
      else (queue, [], .proceed (.top false))
  | .top blocking =>
      match Q.top queue.pq with
      | some msg => (queue, [], .proceed (.pop blocking msg))
      | none => (queue, [], .block) -- never taken: the container is not empty
  | .pop blocking msg => ({ queue with pq := Q.pop queue.pq }, [],
      .finish (if blocking then .received msg else .tried true msg))
  | .size => (queue, [], .finish (.size (Q.size queue.pq)))
  | .isEmpty => (queue, [], .finish (.test (Q.size queue.pq == 0)))
  | .isFull => (queue, [], .finish (.test (Q.size queue.pq ≥ Config.maxQueueSize)))
  | .copy => (queue, [], .proceed (.checkCopy queue.pq []))
  | .checkCopy tempPQ result =>
      if Q.size tempPQ = 0 then (queue, [], .finish (.snapshot result))
      else (queue, [], .proceed (.pushBack tempPQ result))
  | .pushBack tempPQ result =>
      match Q.top tempPQ with
      | some msg => (queue, [], .proceed (.popCopy tempPQ (result ++ [msg])))
      | none => (queue, [], .block) -- never taken: the copy is not empty
  | .popCopy tempPQ result => (queue, [], .proceed (.checkCopy (Q.pop tempPQ) result))

/-- The first statement of each function, and what follows. -/
def code : Code (MessageQueue Q) (QueueFunction ι) (QueuePoint Q) (QueueResult ι) String where
  start
    | .enqueue msg => .checkFull msg
    | .blockingReceive => .wait
    | .nonBlockingReceive out => .checkEmpty out
    | .size => .size
    | .isEmpty => .isEmpty
    | .isFull => .isFull
    | .getSnapshot => .copy
  step := statement

/-- What each function does at once. -/
def perform (queue : MessageQueue Q) : QueueFunction ι →
    MessageQueue Q × List String × Option (QueueResult ι)
  | .enqueue msg =>
      let (accepted, next) := queue.enqueue msg
      (next, if accepted then [] else [queue.fullNotice msg], some (.enqueued accepted))
  | .blockingReceive =>
      match queue.blockingReceive with
      | some (msg, next) => (next, [], some (.received msg))
      | none => (queue, [], none)
  | .nonBlockingReceive out =>
      let (received, filled, next) := queue.nonBlockingReceive out
      (next, [], some (.tried received filled))
  | .size => (queue, [], some (.size queue.size))
  | .isEmpty => (queue, [], some (.test queue.isEmpty))
  | .isFull => (queue, [], some (.test queue.isFull))
  | .getSnapshot => (queue, [], some (.snapshot queue.getSnapshot))

/-- The statements of the longest function, `getSnapshot`, and some more. -/
def statements (queue : MessageQueue Q) : ℕ := 3 * queue.size + 4

variable (queue : MessageQueue Q)

/-! ## Each function alone -/

theorem enqueue_ends (msg : Message ι) :
    code.Ends 3 queue (.proceed (.checkFull msg)) (queue.perform (.enqueue msg)).1
      (queue.perform (.enqueue msg)).2.1 (queue.perform (.enqueue msg)).2.2 := by
  by_cases full : Q.size queue.pq ≥ Config.maxQueueSize
  · have rejected : queue.enqueue msg = (false, queue) := if_pos full
    have logged : code.Ends 2 queue (.proceed (.logFull msg)) queue ([queue.fullNotice msg] ++ [])
        (some (.enqueued false)) := .proceed rfl (.finish 1 queue _)
    rw [perform, rejected]
    exact .silent (if_pos full) logged
  · have accepted : queue.enqueue msg = (true, { queue with pq := Q.push queue.pq msg }) :=
      if_neg full
    rw [perform, accepted]
    exact .silent (if_neg full) (.silent rfl (.silent rfl (.finish 0 _ _)))

/-- Taking the top out of a queue that is not empty. -/
theorem top_ends {msg : Message ι} (top : Q.top queue.pq = some msg) (blocking : Bool) :
    code.Ends 2 queue (.proceed (.top blocking)) { queue with pq := Q.pop queue.pq } []
      (some (if blocking then .received msg else .tried true msg)) := by
  have found : queue.statement (.top blocking) = (queue, [], .proceed (.pop blocking msg)) := by
    rw [statement, top]
  exact .silent found (.silent rfl (.finish 0 _ _))

theorem blockingReceive_ends :
    code.Ends 4 queue (.proceed .wait) (queue.perform .blockingReceive).1
      (queue.perform .blockingReceive).2.1 (queue.perform .blockingReceive).2.2 := by
  by_cases ready : queue.ready = true
  · by_cases empty : Q.size queue.pq = 0
    · have shut : queue.blockingReceive = some (.default, queue) := by
        rw [blockingReceive, if_pos ready, if_pos empty]
      rw [perform, shut]
      exact .silent (if_pos ready) (.silent (if_pos empty) (.finish 2 queue _))
    · obtain ⟨msg, top⟩ := PriorityQueue.exists_top empty
      have taken : queue.blockingReceive = some (msg, { queue with pq := Q.pop queue.pq }) := by
        rw [blockingReceive, if_pos ready, if_neg empty, top, Option.map_some]
      rw [perform, taken]
      exact .silent (if_pos ready) (.silent (if_neg empty) (queue.top_ends top true))
  · have asleep : queue.blockingReceive = none := if_neg ready
    rw [perform, asleep]
    exact .silent (if_neg ready) (.block 3 queue)

theorem nonBlockingReceive_ends (out : Message ι) :
    code.Ends 3 queue (.proceed (.checkEmpty out)) (queue.perform (.nonBlockingReceive out)).1
      (queue.perform (.nonBlockingReceive out)).2.1
      (queue.perform (.nonBlockingReceive out)).2.2 := by
  by_cases empty : Q.size queue.pq = 0
  · have nothing : queue.nonBlockingReceive out = (false, out, queue) := if_pos empty
    rw [perform, nothing]
    exact .silent (if_pos empty) (.finish 2 queue _)
  · obtain ⟨msg, top⟩ := PriorityQueue.exists_top empty
    have taken : queue.nonBlockingReceive out =
        (true, msg, { queue with pq := Q.pop queue.pq }) := by
      rw [nonBlockingReceive, if_neg empty, top]
    rw [perform, taken]
    exact .silent (if_neg empty) (queue.top_ends top false)

/-- The copy is popped until it is empty; the queue is not touched. -/
theorem checkCopy_ends (tempPQ : Q.Carrier) (result : List (Message ι)) :
    code.Ends (3 * Q.size tempPQ + 1) queue (.proceed (.checkCopy tempPQ result)) queue []
      (some (.snapshot (result ++ Q.drain tempPQ))) := by
  induction tempPQ using PriorityQueue.pop_induction generalizing result with
  | empty tempPQ empty =>
      rw [Q.drain_of_empty empty, List.append_nil]
      exact .silent (if_pos empty) (.finish _ queue _)
  | pop tempPQ msg top ih =>
      have size := PriorityQueue.size_pop top
      have nonempty : Q.size tempPQ ≠ 0 := by omega
      have found : queue.statement (.pushBack tempPQ result) =
          (queue, [], .proceed (.popCopy tempPQ (result ++ [msg]))) := by
        rw [statement, top]
      have later := ih (result ++ [msg])
      rw [List.append_assoc, List.singleton_append, ← PriorityQueue.drain_of_top top] at later
      rw [size]
      exact .silent (if_neg nonempty) (.silent found (.silent rfl later))

theorem getSnapshot_ends :
    code.Ends (3 * queue.size + 2) queue (.proceed .copy) queue []
      (some (.snapshot queue.getSnapshot)) :=
  .silent rfl (queue.checkCopy_ends queue.pq [])

/-- **Every function does alone what it means**, and a `blockingReceive` that has to wait leaves
no trace. -/
theorem implements : Implements code (perform (Q := Q)) statements where
  ends queue function := by
    have enough : 4 ≤ queue.statements := Nat.le_add_left 4 _
    cases function with
    | enqueue msg => exact (queue.enqueue_ends msg).mono ((Nat.le_succ 3).trans enough)
    | blockingReceive => exact queue.blockingReceive_ends.mono enough
    | nonBlockingReceive out =>
        exact (queue.nonBlockingReceive_ends out).mono ((Nat.le_succ 3).trans enough)
    | size | isEmpty | isFull =>
        exact .silent rfl (.finish _ queue _)
    | getSnapshot => exact queue.getSnapshot_ends.mono (Nat.le_add_right _ 2)
  waits queue function asleep := by
    cases function with
    | blockingReceive =>
        cases received : queue.blockingReceive with
        | none =>
            rw [perform, received]
            exact ⟨rfl, rfl⟩
        | some taken =>
            rw [perform, received] at asleep
            cases asleep
    | enqueue | nonBlockingReceive | size | isEmpty | isFull | getSnapshot => cases asleep

end MessageQueue

/-! ## Among threads -/

/-- The inbox's mutex and the threads that call its functions. -/
abbrev InboxThreads (Q : PriorityQueue (Message ι) MessageComparator) (τ : Type) :=
  Guarded (MessageQueue Q) (QueueFunction ι) (QueuePoint Q) (QueueResult ι) String τ

/-- What happened to the multiset; the rest only read it. -/
def QueueFunction.event : QueueFunction ι → QueueResult ι → Option (BoundedBag.Event (Message ι))
  | .enqueue msg, .enqueued accepted => some (if accepted then .inserted msg else .refused msg)
  | .blockingReceive, .received msg => some (.removed msg)
  | .nonBlockingReceive _, .tried received out =>
      some (if received then .removed out else .foundEmpty)
  | .getSnapshot, .snapshot result => some (.listed result)
  | _, _ => none

/-- What happened to the multiset while functions were performed. -/
def happened (performed : List (QueueFunction ι × QueueResult ι)) :
    List (BoundedBag.Event (Message ι)) :=
  performed.filterMap fun (function, result) => function.event result

omit [Inhabited ι] in
theorem happened_append (performed : List (QueueFunction ι × QueueResult ι))
    (function : QueueFunction ι) (result : QueueResult ι) :
    happened (performed ++ [(function, result)]) =
      happened performed ++ (function.event result).toList := by
  simp only [happened, List.filterMap_eq_flatMap_toList, List.flatMap_append,
    List.flatMap_singleton]

/-- Each function is a call of the bounded multiset or only reads. -/
theorem Inbox.Refines.perform {queue next : MessageQueue Q}
    {events : List (BoundedBag.Event (Message ι))} {function : QueueFunction ι}
    {written : List String} {result : QueueResult ι} (refines : Inbox.Refines ⟨queue, events⟩)
    (performed : queue.perform function = (next, written, some result)) :
    Inbox.Refines ⟨next, events ++ (function.event result).toList⟩ := by
  have called (c : QueueCall ι) {event : BoundedBag.Event (Message ι)}
      (call : queue.call c = some (event, next)) : Inbox.Refines ⟨next, events ++ [event]⟩ :=
    refines.step (Inbox.step_eq_some.mpr ⟨event, call, rfl⟩)
  cases function with
  | enqueue msg =>
      obtain ⟨rfl, -, rfl⟩ := performed
      exact called (.enqueue msg) rfl
  | blockingReceive =>
      cases received : queue.blockingReceive with
      | none =>
          rw [MessageQueue.perform, received] at performed
          cases performed
      | some taken =>
          rw [MessageQueue.perform, received] at performed
          obtain ⟨rfl, -, rfl⟩ := performed
          exact called .blockingReceive (congrArg (Option.map _) received)
  | nonBlockingReceive out =>
      obtain ⟨rfl, -, rfl⟩ := performed
      exact called (.nonBlockingReceive out) rfl
  | size | isEmpty | isFull =>
      obtain ⟨rfl, -, rfl⟩ := performed
      exact (List.append_nil events).symm ▸ refines
  | getSnapshot =>
      obtain ⟨rfl, -, rfl⟩ := performed
      exact called .getSnapshot rfl

/-- **The inbox is thread-safe.** In every interleaving of the statements of any threads that call
any functions of one inbox: the threads see what they would see if each function was performed at
once between its call and its return, on a bounded priority multiset; at most one thread is
between its statements behind the mutex, and with none there nothing is half done; and the one
that is there gets out by at most `3 * MAX_QUEUE_SIZE + 4` statements of its own. -/
theorem inboxThreadSafe {τ : Type} [DecidableEq τ] {ownerID : ℤ}
    {moves : List (Move τ (QueueFunction ι))} {s : InboxThreads Q τ}
    (run : exec (Guarded.step MessageQueue.code) (.initial (.new ownerID)) moves = some s) :
    ∃ turns a, exec (Sequential.step MessageQueue.perform) (.initial (.new ownerID)) turns =
        some a ∧ s.events = a.events ∧
      BoundedBag.Run Message.rank Config.maxQueueSize 0 (happened a.performed) a.data.contents ∧
      (∀ thread function outcome, s.threads thread = .inside function outcome →
        s.holder = some thread) ∧
      (s.holder = none → s.data = a.data ∧ s.written = a.written) ∧
      ∀ thread, s.holder = some thread → ∃ few ≤ 3 * Config.maxQueueSize + 4, ∃ next,
        exec (Guarded.step MessageQueue.code) s
          (List.replicate few (.advance thread) ++ [.unlock thread]) = some next ∧
        next.holder = none := by
  obtain ⟨turns, a, performed, linearized⟩ := MessageQueue.implements.linearizable run
  have refines : Inbox.Refines ⟨a.data, happened a.performed⟩ := by
    refine Sequential.exec_performed
      (fun queue performed => Inbox.Refines ⟨queue, happened performed⟩) ?_ (.initial ownerID)
      performed
    intro queue performed function next written result refines performs
    rw [happened_append]
    exact refines.perform performs
  refine ⟨turns, a, performed, linearized.events, refines.run, linearized.alone,
    linearized.of_free, ?_⟩
  intro thread locked
  obtain ⟨few, within, next, run, free⟩ := linearized.exists_release locked
  have bounded : a.data.size ≤ Config.maxQueueSize := refines.size_le
  have enough : a.data.statements = 3 * a.data.size + 4 := rfl
  exact ⟨few, by omega, next, run, free⟩

/-- The message of one thread is taken by another that waited for it. -/
theorem inboxThreadSafe_handedOver :
    let msg := Message.create 1 2 "" .low 1 ""
    let moves := [.call 2 .blockingReceive, .lock 2, .advance 2, .unlock 2, .call 1 (.enqueue msg),
      .lock 1, .advance 1, .advance 1, .advance 1, .unlock 1, .lock 2, .advance 2, .advance 2,
      .reply 1]
    ∃ s : InboxThreads (.scanned (MessageComparator (ι := Unit))) ℕ,
      exec (Guarded.step MessageQueue.code) (.initial (.new 2)) moves = some s ∧
      s.holder = some 2 ∧ ∃ few ≤ 3 * Config.maxQueueSize + 4, ∃ next,
        exec (Guarded.step MessageQueue.code) s
          (List.replicate few (.advance 2) ++ [.unlock 2]) = some next ∧ next.holder = none := by
  intro msg moves
  have reached : (exec (Guarded.step (MessageQueue.code (Q := .scanned MessageComparator)))
      (.initial (.new 2)) moves).any (fun s => decide (s.holder = some 2)) = true := by
    decide +kernel
  obtain ⟨s, run, locked⟩ := (Option.any_eq_true _ _).mp reached
  have held := of_decide_eq_true locked
  obtain ⟨turns, a, -, -, -, -, -, release⟩ := inboxThreadSafe run
  exact ⟨s, run, held, release 2 held⟩

end MessagePassing
