import MessagePassing.Message
import MessagePassing.Foundation.PriorityQueue

/-! # The inbox

`MessageQueue` over any container meeting the priority-queue contract under
`MessageComparator`. Its functions are the bodies of the member functions between
taking and releasing the mutex; a blocking receive is the section after the wait,
enabled when the wait's predicate holds. Each function has one lemma saying all it
does. Nothing in the program raises the shutdown flag.
-/

namespace MessagePassing

variable {ι : Type}

/-- A process's inbox. -/
structure MessageQueue (Q : PriorityQueue (Message ι) MessageComparator) where
  ownerID : ℤ
  pq : Q.Carrier
  shutdownFlag : Bool

namespace MessageQueue

variable {Q : PriorityQueue (Message ι) MessageComparator}

def new (ownerID : ℤ) : MessageQueue Q where
  ownerID := ownerID
  pq := Q.empty
  shutdownFlag := false

/-- Whether the message was accepted, and the queue after the call. -/
def enqueue (queue : MessageQueue Q) (msg : Message ι) : Bool × MessageQueue Q :=
  if Q.size queue.pq ≥ Config.maxQueueSize then (false, queue)
  else (true, { queue with pq := Q.push queue.pq msg })

/-- What a rejection writes to the log. -/
def fullNotice (queue : MessageQueue Q) (msg : Message ι) : String :=
  "Queue full for P" ++ ToString.toString queue.ownerID ++ " — dropped MSG#" ++
    ToString.toString msg.messageID

/-- The predicate a blocking receive waits for. -/
def ready (queue : MessageQueue Q) : Bool := Q.size queue.pq != 0 || queue.shutdownFlag

/-- A blocking receive holding the mutex: nothing when it goes to sleep. -/
def blockingReceive [Inhabited ι] (queue : MessageQueue Q) :
    Option (Message ι × MessageQueue Q) :=
  if queue.ready then
    if Q.size queue.pq = 0 then some (Message.default, queue)
    else (Q.top queue.pq).map fun msg => (msg, { queue with pq := Q.pop queue.pq })
  else none

/-- Whether a message was received, the out parameter and the queue after the call. -/
def nonBlockingReceive (queue : MessageQueue Q) (out : Message ι) :
    Bool × Message ι × MessageQueue Q :=
  if Q.size queue.pq = 0 then (false, out, queue)
  else
    match Q.top queue.pq with
    | some msg => (true, msg, { queue with pq := Q.pop queue.pq })
    | none => (false, out, queue) -- never taken: the container is not empty

def size (queue : MessageQueue Q) : ℕ := Q.size queue.pq

def isEmpty (queue : MessageQueue Q) : Bool := Q.size queue.pq == 0

def isFull (queue : MessageQueue Q) : Bool := decide (Q.size queue.pq ≥ Config.maxQueueSize)

/-- A copy popped until it is empty; the queue itself is only read. -/
def getSnapshot (queue : MessageQueue Q) : List (Message ι) := Q.drain queue.pq

/-- The messages stored. -/
def contents (queue : MessageQueue Q) : Multiset (Message ι) := Q.contents queue.pq

theorem card_contents (queue : MessageQueue Q) : queue.contents.card = queue.size :=
  (Q.size_eq queue.pq).symm

@[simp] theorem contents_new (ownerID : ℤ) : (new ownerID : MessageQueue Q).contents = 0 :=
  Q.contents_empty

@[simp] theorem size_new (ownerID : ℤ) : (new ownerID : MessageQueue Q).size = 0 := Q.size_empty

/-- A call took a message of maximal rank out of the queue. -/
structure Takes (queue : MessageQueue Q) (msg : Message ι) (next : MessageQueue Q) : Prop where
  contents : queue.contents = msg ::ₘ next.contents
  maximal : ∀ other ∈ queue.contents, other.rank ≤ msg.rank
  snapshot : queue.getSnapshot = msg :: next.getSnapshot
  ownerID : next.ownerID = queue.ownerID
  shutdownFlag : next.shutdownFlag = queue.shutdownFlag

theorem Takes.of_top {queue : MessageQueue Q} {msg : Message ι}
    (top : Q.top queue.pq = some msg) :
    queue.Takes msg { queue with pq := Q.pop queue.pq } where
  contents := PriorityQueue.contents_eq_cons top
  maximal other member := not_lt.mp fun above =>
    PriorityQueue.not_less_of_top top member ((messageComparator_iff msg other).mpr above)
  snapshot := PriorityQueue.drain_of_top top
  ownerID := rfl
  shutdownFlag := rfl

theorem Takes.size {queue next : MessageQueue Q} {msg : Message ι} (takes : queue.Takes msg next) :
    queue.size = next.size + 1 := by
  rw [← card_contents, ← card_contents, takes.contents, Multiset.card_cons]

theorem Takes.mem {queue next : MessageQueue Q} {msg : Message ι} (takes : queue.Takes msg next) :
    msg ∈ queue.contents := by
  rw [takes.contents]
  exact Multiset.mem_cons_self msg _

/-- A snapshot is a permutation of the contents. -/
theorem coe_getSnapshot (queue : MessageQueue Q) :
    (queue.getSnapshot : Multiset (Message ι)) = queue.contents :=
  PriorityQueue.coe_drain queue.pq

/-- A snapshot is non-increasing by priority and then by aging counter. -/
theorem pairwise_getSnapshot (queue : MessageQueue Q) :
    queue.getSnapshot.Pairwise fun a b => b.rank ≤ a.rank :=
  (PriorityQueue.pairwise_drain queue.pq).imp fun {a b} notBelow =>
    not_lt.mp fun below => notBelow ((messageComparator_iff a b).mpr below)

/-- A full queue rejects a message unchanged; any other stores it. -/
theorem enqueue_cases (queue : MessageQueue Q) (msg : Message ι) :
    (Config.maxQueueSize ≤ queue.size ∧ queue.enqueue msg = (false, queue)) ∨
      (queue.size < Config.maxQueueSize ∧ ∃ next, queue.enqueue msg = (true, next) ∧
        next.contents = msg ::ₘ queue.contents ∧ next.ownerID = queue.ownerID ∧
        next.shutdownFlag = queue.shutdownFlag) := by
  unfold enqueue
  split
  · rename_i full
    exact Or.inl ⟨full, rfl⟩
  · rename_i room
    exact Or.inr ⟨not_le.mp room, _, rfl, Q.contents_push queue.pq msg, rfl, rfl⟩

theorem isEmpty_iff (queue : MessageQueue Q) : queue.isEmpty = true ↔ queue.contents = 0 := by
  rw [isEmpty, beq_iff_eq, PriorityQueue.size_eq_zero_iff]
  rfl

/-- The queues called full are those that reject. -/
theorem isFull_iff (queue : MessageQueue Q) (msg : Message ι) :
    queue.isFull = true ↔ (queue.enqueue msg).1 = false := by
  rw [isFull, decide_eq_true_eq, enqueue]
  by_cases full : Q.size queue.pq ≥ Config.maxQueueSize
  · rw [if_pos full]
    exact iff_of_true full rfl
  · rw [if_neg full]
    exact iff_of_false full nofun

/-- An empty queue leaves everything as it is; any other gives a message of maximal
rank. -/
theorem nonBlockingReceive_cases (queue : MessageQueue Q) (out : Message ι) :
    (queue.size = 0 ∧ queue.nonBlockingReceive out = (false, out, queue)) ∨
      ∃ msg next, queue.nonBlockingReceive out = (true, msg, next) ∧ queue.Takes msg next := by
  unfold nonBlockingReceive
  split
  · rename_i empty
    exact Or.inl ⟨empty, rfl⟩
  · rename_i nonempty
    obtain ⟨msg, top⟩ := PriorityQueue.exists_top nonempty
    rw [top]
    exact Or.inr ⟨msg, _, rfl, Takes.of_top top⟩

/-- With the shutdown flag down, a blocking receive sleeps on an empty queue and takes
a message from any other. -/
theorem blockingReceive_cases [Inhabited ι] {queue : MessageQueue Q}
    (running : queue.shutdownFlag = false) :
    (queue.size = 0 ∧ queue.blockingReceive = none) ∨
      ∃ msg next, queue.blockingReceive = some (msg, next) ∧ queue.Takes msg next := by
  by_cases empty : Q.size queue.pq = 0
  · have waits : queue.ready = false := by
      rw [ready, running, empty]
      rfl
    refine Or.inl ⟨empty, ?_⟩
    rw [blockingReceive, waits]
    rfl
  · have runs : queue.ready = true := by
      rw [ready, bne_iff_ne.mpr empty, Bool.true_or]
    obtain ⟨msg, top⟩ := PriorityQueue.exists_top empty
    refine Or.inr ⟨msg, _, ?_, Takes.of_top top⟩
    rw [blockingReceive, runs, if_pos rfl, if_neg empty, top, Option.map_some]

theorem takes_of_blockingReceive [Inhabited ι] {queue next : MessageQueue Q} {msg : Message ι}
    (running : queue.shutdownFlag = false)
    (received : queue.blockingReceive = some (msg, next)) : queue.Takes msg next := by
  rcases blockingReceive_cases running with ⟨-, asleep⟩ | ⟨other, rest, returned, takes⟩
  · rw [asleep] at received
    cases received
  · rw [returned, Option.some.injEq, Prod.mk.injEq] at received
    obtain ⟨rfl, rfl⟩ := received
    exact takes

end MessageQueue

end MessagePassing
