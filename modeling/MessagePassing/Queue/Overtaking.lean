import MessagePassing.Queue.Refinement

/-! # How many messages overtake one in an inbox

Nothing ages in an inbox: a message keeps the priority and the counter it was
delivered with. Runs of deliveries and receives on one inbox, in which every message
accepted carries the number of messages accepted before it. While a message waits,
those received before it are up to the capacity those accepted meanwhile that are
not ranked below it (`Inbox.overtakers_bounds`). So overtaking is bounded in a
family of runs exactly if those arrivals are (`boundedOvertaking_iff`), and it is
not bounded over all runs (`overtaking_unbounded`).
-/

namespace MessagePassing

open Transition

variable {Q : PriorityQueue (Message ℕ) MessageComparator}

/-- What the dispatcher and the receivers do to an inbox. -/
inductive InboxAct
  | deliver (msg : Message Unit)
  | nonBlockingReceive
  | blockingReceive

namespace Inbox

/-- One delivery or receive; a message accepted gets the next number. -/
def act (inbox : Inbox Q) : InboxAct → Option (Inbox Q)
  | .deliver msg =>
      inbox.step (.enqueue (msg.withTicket (BoundedBag.insertions inbox.events).length))
  | .nonBlockingReceive => inbox.step (.nonBlockingReceive .default)
  | .blockingReceive => inbox.step .blockingReceive

/-- An inbox whose accepted messages are numbered in order. -/
structure Numbered (inbox : Inbox Q) : Prop where
  refines : inbox.Refines
  numbers : (BoundedBag.insertions inbox.events).map Message.ticket =
    List.range (BoundedBag.insertions inbox.events).length

theorem Numbered.initial (ownerID : ℤ) : (initial ownerID : Inbox Q).Numbered where
  refines := .initial ownerID
  numbers := rfl

theorem Numbered.of_step {inbox next : Inbox Q} {c : QueueCall ℕ} (numbered : inbox.Numbered)
    (taken : inbox.step c = some next)
    (number : ∀ msg, c = .enqueue msg →
      msg.ticket = (BoundedBag.insertions inbox.events).length) : next.Numbered where
  refines := numbered.refines.step taken
  numbers := by
    obtain ⟨event, called, events⟩ := step_eq_some.mp taken
    rw [events, BoundedBag.insertions_append]
    rcases MessageQueue.call_insertion called with nothing | ⟨msg, enqueued, rfl⟩
    · have same : BoundedBag.insertions [event] = [] := by
        rw [BoundedBag.insertions, List.filterMap_cons_none nothing, List.filterMap_nil]
      rw [same, List.append_nil]
      exact numbered.numbers
    · have last : BoundedBag.insertions [BoundedBag.Event.inserted msg] = [msg] := rfl
      rw [last, List.map_append, numbered.numbers, List.length_append, List.length_singleton,
        List.range_succ, List.map_singleton, number msg enqueued]

theorem Numbered.act {inbox next : Inbox Q} {a : InboxAct} (numbered : inbox.Numbered)
    (taken : inbox.act a = some next) : next.Numbered := by
  cases a with
  | deliver msg =>
      refine numbered.of_step taken fun other same => ?_
      obtain rfl := QueueCall.enqueue.inj same
      rfl
  | nonBlockingReceive => exact numbered.of_step taken fun _ same => by cases same
  | blockingReceive => exact numbered.of_step taken fun _ same => by cases same

theorem numbered_run {ownerID : ℤ} {acts : List InboxAct} {inbox : Inbox Q}
    (run : exec act (initial ownerID) acts = some inbox) : inbox.Numbered :=
  exec_invariant Numbered (fun _ _ _ => Numbered.act) (.initial ownerID) run

/-- While a message waits, those received before it are those accepted meanwhile and
not ranked below it, except the fewer than a full inbox still stored. -/
theorem overtakers_bounds {ownerID : ℤ} {acts : List InboxAct} {inbox : Inbox Q}
    (run : exec act (initial ownerID) acts = some inbox) {m : Message ℕ}
    {wait : List (BoundedBag.Event (Message ℕ))} (waits : BoundedBag.Waits inbox.events m wait) :
    BoundedBag.overtakers wait ≤ BoundedBag.rivals Message.rank m wait ∧
      BoundedBag.rivals Message.rank m wait < BoundedBag.overtakers wait + Config.maxQueueSize := by
  obtain ⟨refines, numbers⟩ := numbered_run run
  have distinct : (BoundedBag.insertions inbox.events).Nodup := by
    refine List.Nodup.of_map Message.ticket ?_
    rw [numbers]
    exact List.nodup_range
  exact ⟨refines.run.overtakers_le_rivals distinct waits, refines.run.rivals_lt distinct waits⟩

/-- In the runs of an environment, at most some number of messages enqueued later than
a message are received before it. -/
def BoundedOvertaking (Q : PriorityQueue (Message ℕ) MessageComparator) (ownerID : ℤ)
    (environment : Set (List InboxAct)) : Prop :=
  ∃ B, ∀ acts ∈ environment, ∀ inbox : Inbox Q, exec act (initial ownerID) acts = some inbox →
    ∀ m wait, BoundedBag.Waits inbox.events m wait → BoundedBag.overtakers wait ≤ B

/-- In the runs of an environment, at most some number of messages not ranked below a
message are accepted while it waits. -/
def BoundedRivals (Q : PriorityQueue (Message ℕ) MessageComparator) (ownerID : ℤ)
    (environment : Set (List InboxAct)) : Prop :=
  ∃ B, ∀ acts ∈ environment, ∀ inbox : Inbox Q, exec act (initial ownerID) acts = some inbox →
    ∀ m wait, BoundedBag.Waits inbox.events m wait → BoundedBag.rivals Message.rank m wait ≤ B

/-! ## A low message overtaken forever -/

/-- A low message, and after it a high one delivered and received time and again. -/
def starving (low high : Message Unit) (rounds : ℕ) : List InboxAct :=
  .deliver low :: (List.replicate rounds [.deliver high, .nonBlockingReceive]).flatten

theorem exists_deliver {inbox : Inbox Q} (room : inbox.queue.size < Config.maxQueueSize)
    (msg : Message Unit) : ∃ next sent, inbox.act (.deliver msg) = some next ∧
      sent.rank = msg.rank ∧ next.queue.contents = sent ::ₘ inbox.queue.contents ∧
      next.events = inbox.events ++ [.inserted sent] := by
  let sent := msg.withTicket (BoundedBag.insertions inbox.events).length
  rcases inbox.queue.enqueue_cases sent with ⟨full, -⟩ | ⟨-, queue, accepted, contents, -⟩
  · exact absurd room (not_lt.mpr full)
  · refine ⟨⟨queue, inbox.events ++ [.inserted sent]⟩, sent, ?_, rfl, contents, rfl⟩
    exact step_eq_some.mpr ⟨_, by rw [MessageQueue.call, accepted]; rfl, rfl⟩

/-- A receive finds a message ranked above the only other one. -/
theorem exists_receive {inbox : Inbox Q} {low high : Message ℕ} (above : low.rank < high.rank)
    (contents : inbox.queue.contents = {high, low}) :
    ∃ next, inbox.act .nonBlockingReceive = some next ∧ next.queue.contents = {low} ∧
      next.events = inbox.events ++ [.removed high] := by
  rcases inbox.queue.nonBlockingReceive_cases .default with ⟨empty, -⟩ |
    ⟨msg, queue, received, takes⟩
  · rw [← MessageQueue.card_contents, contents] at empty
    cases empty
  · have picked : msg = high := by
      have member := takes.mem
      rw [contents, Multiset.insert_eq_cons, Multiset.mem_cons, Multiset.mem_singleton] at member
      refine member.resolve_right ?_
      rintro rfl
      refine absurd above (not_lt.mpr (takes.maximal high ?_))
      rw [contents]
      exact Multiset.mem_cons_self high _
    subst picked
    refine ⟨⟨queue, inbox.events ++ [.removed msg]⟩, ?_, ?_, rfl⟩
    · exact step_eq_some.mpr ⟨_, by rw [MessageQueue.call, received]; rfl, rfl⟩
    · have rest := takes.contents
      rw [contents, Multiset.insert_eq_cons] at rest
      exact ((Multiset.cons_inj_right msg).mp rest).symm

/-- The low message is overtaken once in each round, in any container. -/
theorem starving_run (ownerID : ℤ) {low high : Message Unit} (above : low.rank < high.rank)
    (rounds : ℕ) : ∃ (inbox : Inbox Q) (m : Message ℕ) (wait : List _),
      exec act (initial ownerID) (starving low high rounds) = some inbox ∧ m.rank = low.rank ∧
      inbox.queue.contents = {m} ∧ inbox.events = .inserted m :: wait ∧
      BoundedBag.Event.removed m ∉ wait ∧ rounds ≤ BoundedBag.overtakers wait := by
  unfold starving
  induction rounds with
  | zero =>
      have room : (initial ownerID : Inbox Q).queue.size < Config.maxQueueSize := by
        rw [initial, MessageQueue.size_new]
        decide
      obtain ⟨inbox, m, delivered, rank, contents, events⟩ := exists_deliver room low
      refine ⟨inbox, m, [], exec_cons_eq_some.mpr ⟨inbox, delivered, rfl⟩, rank, ?_, events,
        List.not_mem_nil, Nat.zero_le _⟩
      rw [contents, initial, MessageQueue.contents_new]
      rfl
  | succ rounds ih =>
      obtain ⟨inbox, m, wait, run, rank, contents, events, stays, many⟩ := ih
      have room : inbox.queue.size < Config.maxQueueSize := by
        rw [← MessageQueue.card_contents, contents, Multiset.card_singleton]
        decide
      obtain ⟨middle, sent, delivered, sentRank, stored, middleEvents⟩ := exists_deliver room high
      rw [contents] at stored
      rw [← rank, ← sentRank] at above
      obtain ⟨last, received, lastContents, lastEvents⟩ := exists_receive above stored
      refine ⟨last, m, wait ++ [.inserted sent, .removed sent], ?_, rank, lastContents, ?_, ?_, ?_⟩
      · rw [List.replicate_succ', List.flatten_append, ← List.cons_append]
        refine exec_append_eq_some.mpr ⟨inbox, run, ?_⟩
        exact exec_cons_eq_some.mpr ⟨middle, delivered, exec_cons_eq_some.mpr ⟨last, received, rfl⟩⟩
      · rw [lastEvents, middleEvents, events]
        simp only [List.cons_append, List.append_assoc, List.nil_append]
      · rw [List.mem_append, not_or]
        refine ⟨stays, fun member => ?_⟩
        simp only [List.mem_cons, reduceCtorEq, BoundedBag.Event.removed.injEq, List.not_mem_nil,
          or_false, false_or] at member
        exact lt_irrefl _ (member ▸ above)
      · exact (Nat.succ_le_succ many).trans (BoundedBag.overtakers_append wait sent)

end Inbox

/-- **When overtaking in an inbox is bounded.** Over any set of runs of deliveries and
receives, the number of messages enqueued later and received before a message is
bounded if and only if the number of messages accepted while it waits and not ranked
below it is. -/
theorem boundedOvertaking_iff (ownerID : ℤ) (environment : Set (List InboxAct)) :
    Inbox.BoundedOvertaking Q ownerID environment ↔
      Inbox.BoundedRivals Q ownerID environment := by
  refine ⟨?_, ?_⟩
  · rintro ⟨B, bounded⟩
    refine ⟨B + Config.maxQueueSize, fun acts member inbox run m wait waits => ?_⟩
    exact (Inbox.overtakers_bounds run waits).2.le.trans
      (Nat.add_le_add_right (bounded acts member inbox run m wait waits) _)
  · rintro ⟨B, bounded⟩
    exact ⟨B, fun acts member inbox run m wait waits =>
      (Inbox.overtakers_bounds run waits).1.trans (bounded acts member inbox run m wait waits)⟩

/-- A low message overtaken by as many high ones as one likes, each delivered as its
sender made it. -/
theorem overtaking_unbounded :
    ¬ Inbox.BoundedOvertaking (PriorityQueue.scanned MessageComparator) 2
      {acts | ∀ msg, .deliver msg ∈ acts → msg.agingCounter = 0} := by
  rintro ⟨B, bounded⟩
  let low := Message.create 1 2 "" .low 1 ""
  let high := Message.create 1 2 "" .high 2 ""
  have above : low.rank < high.rank := by decide
  obtain ⟨inbox, m, wait, run, -, -, events, stays, many⟩ :=
    Inbox.starving_run (Q := PriorityQueue.scanned MessageComparator) 2 above (B + 1)
  have waits : BoundedBag.Waits inbox.events m wait :=
    ⟨stays, [], [], by rw [events, List.append_nil, List.nil_append]⟩
  refine absurd (bounded _ ?_ inbox run m wait waits) (not_le.mpr many)
  intro msg member
  simp only [Inbox.starving, List.mem_cons, InboxAct.deliver.injEq, List.mem_flatten,
    List.mem_replicate] at member
  rcases member with rfl | ⟨_, ⟨-, rfl⟩, inRound⟩
  · rfl
  · simp only [List.mem_cons, InboxAct.deliver.injEq, reduceCtorEq, List.not_mem_nil,
      or_false] at inRound
    exact inRound ▸ rfl

end MessagePassing
