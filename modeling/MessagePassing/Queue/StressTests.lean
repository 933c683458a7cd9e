import MessagePassing.Queue.Wakeup
import Mathlib.Data.List.Nodup

/-! # The stress tests of the inbox

`StressTester` fills inboxes of its own and drains them. An inbox accepts the first messages it
has room for, whatever comes after them (`MessageQueue.enqueueAll_eq`), and messages of
different ranks come out in the order of their ranks (`MessageQueue.receiveAll_of_sorted`), so
the tests of the ordering and of the capacity pass over any container (`filledAndDrained`). The
test of the blocking receive passes in any interleaving of its two threads, with any spurious
wakeups (`blockingReceiveTested`).
-/

namespace MessagePassing

open Transition

variable {ι : Type}

namespace MessageQueue

variable {Q : PriorityQueue (Message ι) MessageComparator}

/-- Enqueue some messages in turn, and count those accepted. -/
def enqueueAll (queue : MessageQueue Q) : List (Message ι) → ℕ × MessageQueue Q
  | [] => (0, queue)
  | msg :: rest =>
      let (accepted, next) := queue.enqueue msg
      let (count, last) := next.enqueueAll rest
      (if accepted then count + 1 else count, last)

/-- Receive several times without blocking, each time into a new message. -/
def receiveAll [Inhabited ι] (queue : MessageQueue Q) : ℕ → List (Bool × Message ι)
  | 0 => []
  | times + 1 =>
      let (got, out, next) := queue.nonBlockingReceive .default
      (got, out) :: next.receiveAll times

/-- The first messages there is room for are accepted, and no others. -/
theorem enqueueAll_eq (queue : MessageQueue Q) (msgs : List (Message ι)) :
    (queue.enqueueAll msgs).1 = min msgs.length (Config.maxQueueSize - queue.size) ∧
      (queue.enqueueAll msgs).2.contents =
        queue.contents + (msgs.take (Config.maxQueueSize - queue.size) : List _) := by
  induction msgs generalizing queue with
  | nil => exact ⟨(Nat.zero_min _).symm, by rw [List.take_nil]; exact (add_zero _).symm⟩
  | cons msg rest ih =>
      rcases queue.enqueue_cases msg with ⟨full, rejected⟩ |
        ⟨room, next, accepted, contents, -⟩
      · obtain ⟨count, kept⟩ := ih queue
        simp only [enqueueAll, rejected]
        rw [Nat.sub_eq_zero_of_le full] at count kept ⊢
        exact ⟨by rw [Nat.min_zero] at count ⊢; exact count, kept⟩
      · obtain ⟨count, kept⟩ := ih next
        have size : next.size = queue.size + 1 := by
          rw [← card_contents, contents, Multiset.card_cons, card_contents]
        have more : Config.maxQueueSize - queue.size = Config.maxQueueSize - next.size + 1 := by
          omega
        simp only [enqueueAll, accepted, ↓reduceIte]
        rw [more, List.take_succ_cons, List.length_cons]
        constructor
        · rw [count]
          omega
        · rw [kept, contents, Multiset.cons_add, ← Multiset.cons_coe, Multiset.add_cons]

/-- What is received in turn is what a snapshot lists. -/
theorem receiveAll_eq [Inhabited ι] {queue : MessageQueue Q} {times : ℕ}
    (enough : times ≤ queue.size) :
    queue.receiveAll times = (queue.getSnapshot.take times).map (Prod.mk true) := by
  induction times generalizing queue with
  | zero => rfl
  | succ times ih =>
      rcases queue.nonBlockingReceive_cases .default with ⟨empty, -⟩ |
        ⟨msg, next, received, takes⟩
      · omega
      · have size := takes.size
        have left : times ≤ next.size := by omega
        rw [takes.snapshot, List.take_succ_cons, List.map_cons, ← ih left, receiveAll, received]

/-- Messages of different ranks come out of a new inbox in the order of their ranks. -/
theorem receiveAll_of_sorted [Inhabited ι] (ownerID : ℤ) (msgs expected : List (Message ι))
    (few : msgs.length ≤ Config.maxQueueSize) (same : expected.Perm msgs)
    (sorted : expected.Pairwise fun a b => b.rank < a.rank) :
    ((new ownerID : MessageQueue Q).enqueueAll msgs).2.receiveAll msgs.length =
      expected.map (Prod.mk true) := by
  obtain ⟨-, contents⟩ := (new ownerID : MessageQueue Q).enqueueAll_eq msgs
  rw [size_new, contents_new, zero_add, Nat.sub_zero, List.take_of_length_le few] at contents
  generalize (new ownerID : MessageQueue Q).enqueueAll msgs = filled at contents
  have snapshot : filled.2.getSnapshot = expected := by
    have perm : filled.2.getSnapshot.Perm expected := by
      rw [← Multiset.coe_eq_coe, coe_getSnapshot, contents, Multiset.coe_eq_coe]
      exact same.symm
    have apart : (expected.map Message.rank).Nodup :=
      List.pairwise_map.mpr (sorted.imp fun less => less.ne')
    apply perm.eq_of_pairwise ?_ filled.2.pairwise_getSnapshot (sorted.imp le_of_lt)
    intro a b left right above below
    exact List.inj_on_of_nodup_map apart (perm.mem_iff.mp left) right (le_antisymm below above)
  have size : filled.2.size = msgs.length := by
    rw [← card_contents, contents, Multiset.coe_card]
  rw [receiveAll_eq size.ge, snapshot, List.take_of_length_le same.length_eq.le]

end MessageQueue

namespace StressTester

variable (Q : PriorityQueue (Message Unit) MessageComparator)

/-- Three messages of different priorities; the time stamps are any. -/
def testPriorityOrdering (timestamp : String) : Bool :=
  let q : MessageQueue Q := .new 99
  let low := Message.create 1 99 "low msg" .low 1 timestamp
  let med := Message.create 1 99 "medium msg" .medium 2 timestamp
  let hi := Message.create 1 99 "high msg" .high 3 timestamp
  let q := (q.enqueue low).2
  let q := (q.enqueue hi).2
  let q := (q.enqueue med).2
  let (got1, out1, q) := q.nonBlockingReceive .default
  let (got2, out2, q) := q.nonBlockingReceive .default
  let (got3, out3, _) := q.nonBlockingReceive .default
  got1 && got2 && got3 && decide (out1.priority = .high) && decide (out2.priority = .medium) &&
    decide (out3.priority = .low)

/-- The messages of the test of the capacity, by their number. -/
def overflow (timestamp : String) (i : ℕ) : Message Unit :=
  .create 1 98 "overflow test" .low (i + 100) timestamp

/-- More messages than there is room for. -/
def testQueueOverflow (timestamp : String) : Bool :=
  let q : MessageQueue Q := .new 98
  let (accepted, _) :=
    q.enqueueAll ((List.range (Config.maxQueueSize + 5)).map (overflow timestamp))
  decide (accepted = Config.maxQueueSize)

theorem testPriorityOrdering_passes (timestamp : String) :
    testPriorityOrdering Q timestamp = true := by
  have ordered := MessageQueue.receiveAll_of_sorted (Q := Q) 99
    [.create 1 99 "low msg" .low 1 timestamp, .create 1 99 "high msg" .high 3 timestamp,
      .create 1 99 "medium msg" .medium 2 timestamp]
    [.create 1 99 "high msg" .high 3 timestamp, .create 1 99 "medium msg" .medium 2 timestamp,
      .create 1 99 "low msg" .low 1 timestamp] ?_ (List.perm_append_singleton _ [_, _]) ?_
  · simp only [MessageQueue.enqueueAll, List.length_cons, List.length_nil, MessageQueue.receiveAll,
      List.map_cons, List.map_nil, List.cons.injEq, Prod.mk.injEq, and_true] at ordered
    obtain ⟨⟨got1, out1⟩, ⟨got2, out2⟩, got3, out3⟩ := ordered
    simp only [testPriorityOrdering, got1, got2, got3, out1, out2, out3]
    rfl
  · change 3 ≤ 20
    decide
  · have first : toLex ((2 : ℤ), (0 : ℤ)) < toLex (3, 0) := by decide
    have second : toLex ((1 : ℤ), (0 : ℤ)) < toLex (2, 0) := by decide
    refine .cons (fun other member => ?_) (.cons (fun other member => ?_) (.cons nofun .nil))
    · rcases List.mem_cons.mp member with rfl | last
      · exact first
      · rw [List.mem_singleton.mp last]
        exact second.trans first
    · rw [List.mem_singleton.mp member]
      exact second

theorem testQueueOverflow_passes (timestamp : String) : testQueueOverflow Q timestamp = true := by
  have filled := ((MessageQueue.new 98 : MessageQueue Q).enqueueAll_eq
    ((List.range (Config.maxQueueSize + 5)).map (overflow timestamp))).1
  rw [List.length_map, List.length_range, MessageQueue.size_new, Nat.sub_zero,
    Nat.min_eq_right (Nat.le_add_right _ 5)] at filled
  exact decide_eq_true filled

end StressTester

/-- **Filling and draining an inbox.** Over any container: of any messages enqueued in turn into
a new inbox the first are accepted up to its capacity and stored; messages of different ranks
are received in the order of their ranks; and so the tests of ordering and capacity pass. -/
theorem filledAndDrained (Q : PriorityQueue (Message Unit) MessageComparator) (ownerID : ℤ) :
    (∀ msgs, ((MessageQueue.new ownerID : MessageQueue Q).enqueueAll msgs).1 =
          min msgs.length Config.maxQueueSize ∧
        ((MessageQueue.new ownerID : MessageQueue Q).enqueueAll msgs).2.contents =
          (msgs.take Config.maxQueueSize : List _)) ∧
      (∀ msgs expected : List (Message Unit), msgs.length ≤ Config.maxQueueSize →
        expected.Perm msgs →
        (expected.Pairwise fun a b => b.rank < a.rank) →
          ((MessageQueue.new ownerID : MessageQueue Q).enqueueAll msgs).2.receiveAll msgs.length =
            expected.map (Prod.mk true)) ∧
      ∀ timestamp, StressTester.testPriorityOrdering Q timestamp = true ∧
        StressTester.testQueueOverflow Q timestamp = true := by
  refine ⟨fun msgs => ?_, MessageQueue.receiveAll_of_sorted ownerID, fun timestamp =>
    ⟨StressTester.testPriorityOrdering_passes Q timestamp,
      StressTester.testQueueOverflow_passes Q timestamp⟩⟩
  have filled := (MessageQueue.new ownerID : MessageQueue Q).enqueueAll_eq msgs
  rw [MessageQueue.size_new, MessageQueue.contents_new, zero_add, Nat.sub_zero] at filled
  exact filled

/-! ## The test of the blocking receive -/

/-- The thread that runs the tests, and the one it creates. -/
inductive TestThread
  | tester
  | sender
  deriving DecidableEq

inductive SenderPoint
  | created
  | enqueued
  | returned
  deriving DecidableEq

/-- How many steps are left to the sender, and one for the wakeup of the tester. -/
def SenderPoint.remaining : SenderPoint → ℕ
  | created => 3
  | enqueued => 1
  | returned => 0

/-- Where `testBlockingReceive` stands, with what it received and what it reported. -/
inductive TesterPoint
  | calling
  | waiting
  | joining (received : Message Unit)
  | reported (passed : Bool)
  deriving DecidableEq

structure BlockingTest (Q : PriorityQueue (Message Unit) MessageComparator) where
  blocking : Blocking Q TestThread
  sender : SenderPoint
  tester : TesterPoint
  messageDelivered : Bool

inductive TestAct
  | sender
  | tester
  | spuriousWakeup
  deriving DecidableEq

namespace BlockingTest

variable {Q : PriorityQueue (Message Unit) MessageComparator}

def initial : BlockingTest Q where
  blocking := .initial 97
  sender := .created
  tester := .calling
  messageDelivered := false

/-- The blocking receive has returned, or its thread is in the wait. -/
def outcome (blocking : Blocking Q TestThread) : TesterPoint :=
  match blocking.returned with
  | [] => .waiting
  | (_, msg) :: _ => .joining msg

/-- The next step of a thread, with the message that is sent. -/
def step (msg : Message Unit) (test : BlockingTest Q) : TestAct → Option (BlockingTest Q)
  | .sender =>
      match test.sender with
      | .created => (test.blocking.step (.enqueue .sender msg .tester)).map fun blocking =>
          { test with blocking := blocking, sender := .enqueued }
      | .enqueued => some { test with messageDelivered := true, sender := .returned }
      | .returned => none
  | .tester =>
      match test.tester with
      | .calling => (test.blocking.step (.blockingReceive .tester)).map fun blocking =>
          { test with blocking := blocking, tester := outcome blocking }
      | .waiting => (test.blocking.step (.resume .tester)).map fun blocking =>
          { test with blocking := blocking, tester := outcome blocking }
      | .joining received =>
          if test.sender = .returned then
            some { test with
              tester := .reported (test.messageDelivered && decide (received.messageID ≠ 0)) }
          else none
      | .reported _ => none
  | .spuriousWakeup =>
      (test.blocking.step (.spuriousWakeup .tester)).map fun blocking =>
        { test with blocking := blocking }

/-- How many steps are left to the tester, if it is not woken spuriously. -/
def remaining (blocking : Blocking Q TestThread) : TesterPoint → ℕ
  | .calling => 2
  | .waiting => if .tester ∈ blocking.waiters.woken then 2 else 1
  | .joining _ => 1
  | .reported _ => 0

def potential (test : BlockingTest Q) : ℕ :=
  test.sender.remaining + remaining test.blocking test.tester

/-- A change of the inbox raises what is left to the tester by one step at most. -/
theorem remaining_le (first second : Blocking Q TestThread) (point : TesterPoint) :
    remaining first point ≤ remaining second point + 1 := by
  cases point with
  | waiting =>
      rw [remaining, remaining]
      split <;> split <;> omega
  | calling | joining received | reported passed => exact Nat.le_add_right _ 1

/-- The blocking receive has taken nothing so far. -/
structure Untaken (blocking : Blocking Q TestThread) : Prop where
  returned : blocking.returned = []
  removals : BoundedBag.removals blocking.inbox.events = []

/-- What the tester knows where it stands. -/
def Fits (msg : Message Unit) (blocking : Blocking Q TestThread) : TesterPoint → Prop
  | .calling => Untaken blocking ∧ TestThread.tester ∉ blocking.waiters.waiting
  | .waiting => Untaken blocking ∧ TestThread.tester ∈ blocking.waiters.waiting
  | .joining received => received = msg
  | .reported passed => passed = decide (msg.messageID ≠ 0)

/-- What every run of the test keeps. -/
structure Testing (msg : Message Unit) (test : BlockingTest Q) : Prop where
  sound : test.blocking.Sound
  bystander : TestThread.sender ∉ test.blocking.waiters.waiting
  sent : BoundedBag.insertions test.blocking.inbox.events =
    if test.sender = .created then [] else [msg]
  fits : Fits msg test.blocking test.tester
  delivered : test.messageDelivered = true ↔ test.sender = .returned

theorem Testing.initial (msg : Message Unit) : (initial : BlockingTest Q).Testing msg where
  sound := .initial 97
  bystander := Finset.notMem_empty _
  sent := rfl
  fits := ⟨⟨rfl, rfl⟩, Finset.notMem_empty _⟩
  delivered := ⟨fun set => absurd set Bool.false_ne_true, SenderPoint.noConfusion⟩

variable {msg : Message Unit} {test next : BlockingTest Q} {act : TestAct}

/-- As long as nothing is taken, what was sent is stored. -/
theorem Testing.contents_eq (testing : test.Testing msg) (untaken : Untaken test.blocking) :
    test.blocking.inbox.queue.contents =
      ((if test.sender = .created then [] else [msg] : List (Message Unit)) : Multiset _) := by
  have conserved := testing.sound.refines.run.conserve
  rw [zero_add, untaken.removals, testing.sent] at conserved
  exact (conserved.trans (add_zero _)).symm

/-- Before anything is sent the inbox is empty. -/
theorem Testing.size_eq_zero (testing : test.Testing msg) (created : test.sender = .created) :
    test.blocking.inbox.queue.size = 0 := by
  have conserved := testing.sound.refines.run.conserve
  rw [zero_add, testing.sent, if_pos created] at conserved
  have contents : test.blocking.inbox.queue.contents = 0 :=
    Multiset.le_zero.mp ((Multiset.le_add_right _ _).trans_eq conserved.symm)
  rw [← MessageQueue.card_contents, contents, Multiset.card_zero]

/-- The tester takes the message sent, or sleeps. -/
theorem fits_receive {s : Blocking Q TestThread} (running : s.inbox.queue.shutdownFlag = false)
    (untaken : Untaken s) (sent : ∀ m ∈ BoundedBag.insertions s.inbox.events, m = msg)
    (outside : TestThread.tester ∉ s.waiters.waiting)
    (after : (s.receive .tester outside).inbox.Refines) :
    Fits msg (s.receive .tester outside) (outcome (s.receive .tester outside)) ∧
      BoundedBag.insertions (s.receive .tester outside).inbox.events =
        BoundedBag.insertions s.inbox.events ∧
      (s.receive .tester outside).waiters.waiting ⊆ insert .tester s.waiters.waiting ∧
      remaining (s.receive .tester outside) (outcome (s.receive .tester outside)) = 1 := by
  rcases Blocking.receive_cases running outside with ⟨-, asleep⟩ |
    ⟨m, -, events, waiters, returned⟩
  · rw [asleep]
    have waits : outcome { s with waiters := s.waiters.sleep .tester outside } = .waiting := by
      rw [outcome, untaken.returned]
    rw [waits, remaining, if_neg (s.waiters.woken_sleep _ outside), WaitSet.waiting_sleep]
    refine ⟨⟨⟨untaken.returned, untaken.removals⟩, ?_⟩, rfl, subset_rfl, rfl⟩
    rw [WaitSet.waiting_sleep]
    exact Finset.mem_insert_self _ _
  · have joins : outcome (s.receive .tester outside) = .joining m := by
      rw [outcome, returned, untaken.returned]
      rfl
    have insertions : BoundedBag.insertions (s.receive .tester outside).inbox.events =
        BoundedBag.insertions s.inbox.events := by
      rw [events, BoundedBag.insertions_append]
      exact List.append_nil _
    rw [joins, waiters]
    refine ⟨sent m ?_, insertions, Finset.subset_insert _ _, rfl⟩
    have conserved := after.run.conserve
    rw [zero_add, insertions, events, BoundedBag.removals_append, untaken.removals] at conserved
    rw [← Multiset.mem_coe, conserved]
    exact Multiset.mem_add.mpr (Or.inr (Multiset.mem_coe.mpr List.mem_cons_self))

/-- The tester's part of the blocking receive, at its call or when it runs again. -/
theorem Testing.receives (testing : test.Testing msg)
    (receiving : test.tester = .calling ∨ test.tester = .waiting)
    (taken : test.step msg .tester = some next) :
    ∃ (waiters : WaitSet TestThread) (outside : .tester ∉ waiters.waiting),
      waiters.waiting ⊆ test.blocking.waiters.waiting ∧
      (test.tester = .waiting → .tester ∈ test.blocking.waiters.woken) ∧
      next = { test with
        blocking := { test.blocking with waiters := waiters }.receive .tester outside
        tester := outcome ({ test.blocking with waiters := waiters }.receive .tester outside) } ∧
      next.blocking.Sound := by
  rcases receiving with calling | waiting
  · rw [BlockingTest.step, calling] at taken
    obtain ⟨blocking, stepped, rfl⟩ := Option.map_eq_some_iff.mp taken
    have sound := testing.sound.step stepped
    obtain ⟨outside, received⟩ := Option.dite_none_left_eq_some.mp stepped
    obtain rfl := Option.some.inj received
    refine ⟨test.blocking.waiters, outside, subset_rfl, fun waits => ?_, rfl, sound⟩
    rw [calling] at waits
    cases waits
  · rw [BlockingTest.step, waiting] at taken
    obtain ⟨blocking, stepped, rfl⟩ := Option.map_eq_some_iff.mp taken
    have sound := testing.sound.step stepped
    obtain ⟨awake, received⟩ := Option.dite_none_right_eq_some.mp stepped
    obtain rfl := Option.some.inj received
    exact ⟨test.blocking.waiters.resume .tester, WaitSet.notMem_waiting_resume awake,
      WaitSet.waiting_resume_subset _ _, fun _ => awake, rfl, sound⟩

/-- What was sent is the message of the test. -/
theorem Testing.eq_of_sent (testing : test.Testing msg) :
    ∀ m ∈ BoundedBag.insertions test.blocking.inbox.events, m = msg := by
  intro m member
  rw [testing.sent] at member
  split at member
  · exact absurd member List.not_mem_nil
  · exact List.mem_singleton.mp member

/-- Until the receive has returned it has taken nothing. -/
theorem Testing.untaken (testing : test.Testing msg)
    (receiving : test.tester = .calling ∨ test.tester = .waiting) : Untaken test.blocking := by
  have fits := testing.fits
  rcases receiving with calling | waiting
  · rw [calling] at fits
    exact fits.1
  · rw [waiting] at fits
    exact fits.1

/-- The tester's part of the blocking receive keeps the invariant, and uses up a step. -/
theorem Testing.receive_step (testing : test.Testing msg)
    (receiving : test.tester = .calling ∨ test.tester = .waiting)
    (taken : test.step msg .tester = some next) :
    next.Testing msg ∧ next.potential + 1 ≤ test.potential := by
  obtain ⟨waiters, outside, fewer, awake, rfl, sound⟩ := testing.receives receiving taken
  have untaken := testing.untaken receiving
  obtain ⟨fits, insertions, waiting, spent⟩ := fits_receive testing.sound.refines.running
    (s := { test.blocking with waiters := waiters }) ⟨untaken.returned, untaken.removals⟩
    testing.eq_of_sent outside sound.refines
  constructor
  · refine ⟨sound, fun inside => ?_, insertions.trans testing.sent, fits, testing.delivered⟩
    rcases Finset.mem_insert.mp (waiting inside) with itself | before
    · cases itself
    · exact testing.bystander (fewer before)
  · have more : 2 ≤ remaining test.blocking test.tester := by
      rcases receiving with calling | waiting
      · rw [calling, remaining]
      · rw [waiting, remaining, if_pos (awake waiting)]
    simp only [potential]
    rw [spent]
    omega

/-- Sending stores the message, and may wake the tester. -/
theorem Testing.enqueue_step (testing : test.Testing msg) (created : test.sender = .created)
    (taken : test.step msg .sender = some next) :
    next.Testing msg ∧ next.potential + 1 ≤ test.potential := by
  rw [BlockingTest.step, created] at taken
  obtain ⟨blocking, stepped, rfl⟩ := Option.map_eq_some_iff.mp taken
  have room : test.blocking.inbox.queue.size < Config.maxQueueSize := by
    rw [testing.size_eq_zero created]
    exact Nat.succ_pos 19
  obtain ⟨events, returned, waiting⟩ := Blocking.enqueue_step room stepped
  have removals : BoundedBag.removals blocking.inbox.events =
      BoundedBag.removals test.blocking.inbox.events := by
    rw [events, BoundedBag.removals_append]
    exact List.append_nil _
  constructor
  · refine ⟨testing.sound.step stepped, ?_, ?_, ?_, ?_⟩
    · rw [waiting]
      exact testing.bystander
    · rw [events, BoundedBag.insertions_append, testing.sent, if_pos created]
      rfl
    · have fits := testing.fits
      change Fits msg blocking test.tester
      cases point : test.tester with
      | calling | waiting =>
          rw [point] at fits
          obtain ⟨untaken, inside⟩ := fits
          exact ⟨⟨returned.trans untaken.returned, removals.trans untaken.removals⟩,
            waiting ▸ inside⟩
      | joining received | reported passed =>
          rw [point] at fits
          exact fits
    · rw [testing.delivered, created]
      exact ⟨SenderPoint.noConfusion, SenderPoint.noConfusion⟩
  · have raised : remaining blocking test.tester ≤ remaining test.blocking test.tester + 1 :=
      remaining_le _ _ _
    simp only [potential, created, SenderPoint.remaining]
    omega

theorem Testing.step (testing : test.Testing msg) (taken : test.step msg act = some next) :
    next.Testing msg ∧ next.potential + (if act = .spuriousWakeup then 0 else 1) ≤
      test.potential + if act = .spuriousWakeup then 1 else 0 := by
  cases act with
  | sender =>
      cases point : test.sender with
      | created => exact testing.enqueue_step point taken
      | enqueued =>
          rw [BlockingTest.step, point] at taken
          obtain rfl := Option.some.inj taken
          have sent := testing.sent
          rw [point] at sent
          constructor
          · exact ⟨testing.sound, testing.bystander, sent, testing.fits, iff_of_true rfl rfl⟩
          · simp only [potential, point, SenderPoint.remaining, reduceCtorEq, ↓reduceIte]
            omega
      | returned =>
          rw [BlockingTest.step, point] at taken
          cases taken
  | tester =>
      cases point : test.tester with
      | calling => exact testing.receive_step (Or.inl point) taken
      | waiting => exact testing.receive_step (Or.inr point) taken
      | joining received =>
          rw [BlockingTest.step, point] at taken
          obtain ⟨returned, reports⟩ := Option.ite_none_right_eq_some.mp taken
          obtain rfl := Option.some.inj reports
          have fits := testing.fits
          rw [point] at fits
          obtain rfl : received = msg := fits
          constructor
          · refine ⟨testing.sound, testing.bystander, testing.sent, ?_, testing.delivered⟩
            change (test.messageDelivered && _) = _
            rw [testing.delivered.mpr returned, Bool.true_and]
          · simp only [potential, point, remaining]
            rfl
      | reported passed =>
          rw [BlockingTest.step, point] at taken
          cases taken
  | spuriousWakeup =>
      obtain ⟨blocking, stepped, rfl⟩ := Option.map_eq_some_iff.mp taken
      obtain ⟨waiters, woke, rfl⟩ := Option.map_eq_some_iff.mp stepped
      have waiting := WaitSet.waiting_wakeSpuriously woke
      constructor
      · refine ⟨testing.sound.step stepped, ?_, testing.sent, ?_, testing.delivered⟩
        · rw [waiting]
          exact testing.bystander
        · have fits := testing.fits
          change Fits msg { test.blocking with waiters := waiters } test.tester
          cases point : test.tester with
          | calling | waiting =>
              rw [point] at fits
              obtain ⟨untaken, inside⟩ := fits
              exact ⟨⟨untaken.returned, untaken.removals⟩, waiting ▸ inside⟩
          | joining received | reported passed =>
              rw [point] at fits
              exact fits
      · have raised := remaining_le { test.blocking with waiters := waiters } test.blocking
          test.tester
        simp only [potential]
        exact Nat.add_le_add_left raised _

/-- Nobody but the tester waits. -/
theorem Testing.eq_tester (testing : test.Testing msg) {t : TestThread}
    (inside : t ∈ test.blocking.waiters.waiting) : t = .tester := by
  cases t with
  | tester => rfl
  | sender => exact absurd inside testing.bystander

/-- A tester left in the wait after the message was sent is woken. -/
theorem Testing.woken (testing : test.Testing msg) (sent : test.sender ≠ .created)
    (waits : test.tester = .waiting) : .tester ∈ test.blocking.waiters.woken := by
  have inside : .tester ∈ test.blocking.waiters.waiting := by
    have fits := testing.fits
    rw [waits] at fits
    exact fits.2
  rw [WaitSet.waiting, Finset.union_assoc] at inside
  refine (Finset.mem_union.mp inside).resolve_left fun asleep => ?_
  -- The message is still stored, so a sleeper would be covered by another notified thread.
  have size : test.blocking.inbox.queue.size = 1 := by
    rw [← MessageQueue.card_contents, testing.contents_eq (testing.untaken (Or.inr waits)),
      if_neg sent]
    rfl
  have covered := testing.sound.covers (Finset.ne_empty_of_mem asleep)
  rw [size] at covered
  obtain ⟨t, notified⟩ := Finset.card_pos.mp covered
  obtain rfl := testing.eq_tester
    (Finset.mem_union_left _ (Finset.mem_union_right _ notified))
  exact Finset.disjoint_left.mp test.blocking.waiters.asleep_notified asleep notified

/-- Until the test has reported, one of its threads can take a step. -/
theorem Testing.progress (testing : test.Testing msg)
    (unreported : ∀ passed, test.tester ≠ .reported passed) :
    ∃ act, act ≠ .spuriousWakeup ∧ (test.step msg act).isSome := by
  cases sender : test.sender with
  | created =>
      have room : test.blocking.inbox.queue.size < Config.maxQueueSize := by
        rw [testing.size_eq_zero sender]
        exact Nat.succ_pos 19
      have only : ∀ t ∈ test.blocking.waiters.asleep, t = .tester := fun t asleep =>
        testing.eq_tester (Finset.mem_union_left _ (Finset.mem_union_left _ asleep))
      obtain ⟨blocking, stepped⟩ := Blocking.enqueue_enabled msg room testing.bystander only
      refine ⟨.sender, TestAct.noConfusion, ?_⟩
      rw [BlockingTest.step, sender, stepped]
      rfl
  | enqueued =>
      refine ⟨.sender, TestAct.noConfusion, ?_⟩
      rw [BlockingTest.step, sender]
      rfl
  | returned =>
      have sent : test.sender ≠ .created := by
        rw [sender]
        exact SenderPoint.noConfusion
      cases tester : test.tester with
      | calling =>
          have fits := testing.fits
          rw [tester] at fits
          refine ⟨.tester, TestAct.noConfusion, ?_⟩
          rw [BlockingTest.step, tester]
          simp only [Blocking.step, dif_neg fits.2, Option.map_some, Option.isSome_some]
      | waiting =>
          refine ⟨.tester, TestAct.noConfusion, ?_⟩
          rw [BlockingTest.step, tester]
          simp only [Blocking.step, dif_pos (testing.woken sent tester), Option.map_some,
            Option.isSome_some]
      | joining received =>
          refine ⟨.tester, TestAct.noConfusion, ?_⟩
          rw [BlockingTest.step, tester]
          simp only [if_pos sender, Option.isSome_some]
      | reported passed => exact absurd tester (unreported passed)

end BlockingTest

open BlockingTest in
/-- **The test of the blocking receive.** In any interleaving of the sender and the tester, with
any spurious wakeups: as long as the test has not reported, one of the two can go on; they take
at most five steps and one more for each spurious wakeup; and the test passes if the message
sent has a number other than zero. -/
theorem blockingReceiveTested {Q : PriorityQueue (Message Unit) MessageComparator}
    {msg : Message Unit} {acts : List TestAct} {test : BlockingTest Q}
    (run : exec (BlockingTest.step msg) initial acts = some test) :
    (∀ passed, test.tester = .reported passed → passed = decide (msg.messageID ≠ 0)) ∧
      acts.length ≤ 5 + 2 * acts.count .spuriousWakeup ∧
      ((∀ passed, test.tester ≠ .reported passed) →
        ∃ act, act ≠ .spuriousWakeup ∧ (test.step msg act).isSome) := by
  have ⟨testing, paid⟩ := exec_invariant_past
    (fun past (test : BlockingTest Q) => test.Testing msg ∧
      test.potential + past.length ≤ 5 + 2 * past.count .spuriousWakeup) ?_
    ⟨Testing.initial msg, le_rfl⟩ run
  · refine ⟨fun passed reported => ?_, by omega, testing.progress⟩
    have fits := testing.fits
    rw [reported] at fits
    exact fits
  · rintro past test act next ⟨testing, paid⟩ taken
    obtain ⟨after, spent⟩ := testing.step taken
    refine ⟨after, ?_⟩
    rw [List.length_append, List.count_append, List.length_singleton, List.count_singleton]
    by_cases spurious : act = .spuriousWakeup
    · simp only [spurious, ↓reduceIte, beq_self_eq_true] at spent ⊢
      omega
    · simp only [spurious, ↓reduceIte, beq_iff_eq] at spent ⊢
      omega

/-- The tester sleeps twice, woken spuriously in between, before the message is sent. -/
theorem blockingReceiveTested_wokenSpuriously :
    let msg := Message.create 1 97 "blocking test" .high 1 ""
    let acts := [.tester, .spuriousWakeup, .tester, .sender, .sender, .tester, .tester]
    ∃ test : BlockingTest (PriorityQueue.scanned (MessageComparator (ι := Unit))),
      exec (BlockingTest.step msg) .initial acts = some test ∧
      test.tester = .reported true ∧
      (∀ passed, test.tester = .reported passed → passed = decide (msg.messageID ≠ 0)) ∧
      acts.length ≤ 5 + 2 * acts.count .spuriousWakeup := by
  intro msg acts
  have reached : (exec (BlockingTest.step (Q := PriorityQueue.scanned MessageComparator) msg)
      .initial acts).any (fun test => decide (test.tester = .reported true)) = true := by
    decide +kernel
  obtain ⟨test, run, facts⟩ := (Option.any_eq_true _ _).mp reached
  obtain ⟨passes, few, -⟩ := blockingReceiveTested run
  exact ⟨test, run, of_decide_eq_true facts, passes, few⟩

end MessagePassing
