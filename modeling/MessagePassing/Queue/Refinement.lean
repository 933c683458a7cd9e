import MessagePassing.Foundation.BoundedBag
import MessagePassing.Foundation.Transition
import MessagePassing.Queue.Basic

/-! # The inbox is a bounded priority multiset

Runs of the calls on one inbox. Every call is a step of the bounded priority
multiset of capacity `Config.maxQueueSize`, ordered by priority and then by aging
counter, with the same outcome (`MessageQueue.call_refines`); hence every run of
the inbox is a run of the multiset (`Inbox.refines`).
-/

namespace MessagePassing

open Transition

variable {ι : Type} [Inhabited ι] {Q : PriorityQueue (Message ι) MessageComparator}

/-- The calls on an inbox. -/
inductive QueueCall (ι : Type)
  | enqueue (msg : Message ι)
  | nonBlockingReceive (out : Message ι)
  | blockingReceive
  | getSnapshot

def QueueCall.IsReceive : QueueCall ι → Prop
  | .nonBlockingReceive _ => True
  | .blockingReceive => True
  | _ => False

namespace MessageQueue

/-- What a call does; nothing when a blocking receive goes to sleep. -/
def call (queue : MessageQueue Q) :
    QueueCall ι → Option (BoundedBag.Event (Message ι) × MessageQueue Q)
  | .enqueue msg =>
      let (accepted, next) := queue.enqueue msg
      some (if accepted then .inserted msg else .refused msg, next)
  | .nonBlockingReceive out =>
      let (received, filled, next) := queue.nonBlockingReceive out
      some (if received then .removed filled else .foundEmpty, next)
  | .blockingReceive => queue.blockingReceive.map fun (msg, next) => (.removed msg, next)
  | .getSnapshot => some (.listed queue.getSnapshot, queue)

omit [Inhabited ι] in
theorem Takes.step {queue next : MessageQueue Q} {msg : Message ι} {capacity : ℕ}
    (takes : queue.Takes msg next) :
    BoundedBag.Step Message.rank capacity queue.contents (.removed msg) next.contents := by
  have maximal := takes.maximal
  rw [takes.contents] at maximal ⊢
  exact .remove msg fun other member => maximal other (Multiset.mem_cons_of_mem member)

/-- A call is a step of the bounded priority multiset with the same outcome. -/
theorem call_refines {queue next : MessageQueue Q} {c : QueueCall ι}
    {event : BoundedBag.Event (Message ι)} (running : queue.shutdownFlag = false)
    (bounded : queue.size ≤ Config.maxQueueSize) (called : queue.call c = some (event, next)) :
    BoundedBag.Step Message.rank Config.maxQueueSize queue.contents event next.contents ∧
      next.shutdownFlag = false := by
  cases c with
  | enqueue msg =>
      rcases queue.enqueue_cases msg with ⟨full, rejected⟩ |
        ⟨room, stored, accepted, contents, -, flag⟩
      · simp only [call, rejected, Bool.false_eq_true, ↓reduceIte, Option.some.injEq,
          Prod.mk.injEq] at called
        obtain ⟨rfl, rfl⟩ := called
        refine ⟨.refuse msg ?_, running⟩
        rw [card_contents]
        exact le_antisymm bounded full
      · simp only [call, accepted, ↓reduceIte, Option.some.injEq, Prod.mk.injEq] at called
        obtain ⟨rfl, rfl⟩ := called
        refine ⟨?_, flag.trans running⟩
        rw [contents]
        exact .insert msg (queue.card_contents ▸ room)
  | nonBlockingReceive out =>
      rcases queue.nonBlockingReceive_cases out with ⟨empty, nothing⟩ | ⟨msg, rest, received, takes⟩
      · simp only [call, nothing, Bool.false_eq_true, ↓reduceIte, Option.some.injEq,
          Prod.mk.injEq] at called
        obtain ⟨rfl, rfl⟩ := called
        rw [← card_contents, Multiset.card_eq_zero] at empty
        rw [empty]
        exact ⟨.findEmpty, running⟩
      · simp only [call, received, ↓reduceIte, Option.some.injEq, Prod.mk.injEq] at called
        obtain ⟨rfl, rfl⟩ := called
        exact ⟨takes.step, takes.shutdownFlag.trans running⟩
  | blockingReceive =>
      rcases blockingReceive_cases running with ⟨_, asleep⟩ | ⟨msg, rest, received, takes⟩
      · simp only [call, asleep, Option.map_none, reduceCtorEq] at called
      · simp only [call, received, Option.map_some, Option.some.injEq, Prod.mk.injEq] at called
        obtain ⟨rfl, rfl⟩ := called
        exact ⟨takes.step, takes.shutdownFlag.trans running⟩
  | getSnapshot =>
      simp only [call, Option.some.injEq, Prod.mk.injEq] at called
      obtain ⟨rfl, rfl⟩ := called
      refine ⟨?_, running⟩
      rw [← coe_getSnapshot]
      exact .list queue.getSnapshot queue.pairwise_getSnapshot

/-- Only an enqueue inserts, and it inserts its message. -/
theorem call_insertion {queue next : MessageQueue Q} {c : QueueCall ι}
    {event : BoundedBag.Event (Message ι)} (called : queue.call c = some (event, next)) :
    event.insertion = none ∨ ∃ msg, c = .enqueue msg ∧ event = .inserted msg := by
  cases c with
  | enqueue msg =>
      simp only [call, Option.some.injEq, Prod.mk.injEq] at called
      obtain ⟨rfl, -⟩ := called
      split
      · exact Or.inr ⟨msg, rfl, rfl⟩
      · exact Or.inl rfl
  | nonBlockingReceive out =>
      simp only [call, Option.some.injEq, Prod.mk.injEq] at called
      obtain ⟨rfl, -⟩ := called
      split <;> exact Or.inl rfl
  | blockingReceive =>
      obtain ⟨⟨msg, rest⟩, -, same⟩ := Option.map_eq_some_iff.mp called
      obtain ⟨rfl, -⟩ := Prod.mk.injEq .. ▸ same
      exact Or.inl rfl
  | getSnapshot =>
      simp only [call, Option.some.injEq, Prod.mk.injEq] at called
      obtain ⟨rfl, -⟩ := called
      exact Or.inl rfl

/-- A receive makes the queue no longer. -/
theorem size_le_of_call {queue next : MessageQueue Q} {out : Message ι}
    {event : BoundedBag.Event (Message ι)}
    (called : queue.call (.nonBlockingReceive out) = some (event, next)) :
    next.size ≤ queue.size := by
  rcases queue.nonBlockingReceive_cases out with ⟨-, nothing⟩ | ⟨msg, rest, received, takes⟩
  · rw [call, nothing] at called
    obtain rfl := congrArg Prod.snd (Option.some.inj called)
    exact le_rfl
  · rw [call, received] at called
    obtain rfl := congrArg Prod.snd (Option.some.inj called)
    exact (Nat.le_succ _).trans_eq takes.size.symm

/-- A receive on a queue that is not empty takes a message. -/
theorem call_receive {queue : MessageQueue Q} {c : QueueCall ι}
    (running : queue.shutdownFlag = false) (nonempty : queue.size ≠ 0) (kind : c.IsReceive) :
    ∃ msg next, queue.call c = some (.removed msg, next) ∧ queue.Takes msg next := by
  cases c with
  | enqueue msg => exact kind.elim
  | nonBlockingReceive out =>
      rcases queue.nonBlockingReceive_cases out with ⟨empty, -⟩ | ⟨msg, next, received, takes⟩
      · exact absurd empty nonempty
      · refine ⟨msg, next, ?_, takes⟩
        simp only [call, received, ↓reduceIte]
  | blockingReceive =>
      rcases blockingReceive_cases running with ⟨empty, -⟩ | ⟨msg, next, received, takes⟩
      · exact absurd empty nonempty
      · refine ⟨msg, next, ?_, takes⟩
        rw [call, received, Option.map_some]
  | getSnapshot => exact kind.elim

end MessageQueue

/-- An inbox and what the calls on it did so far. -/
structure Inbox (Q : PriorityQueue (Message ι) MessageComparator) where
  queue : MessageQueue Q
  events : List (BoundedBag.Event (Message ι))

namespace Inbox

def initial (ownerID : ℤ) : Inbox Q where
  queue := .new ownerID
  events := []

def step (inbox : Inbox Q) (c : QueueCall ι) : Option (Inbox Q) :=
  (inbox.queue.call c).map fun (event, next) =>
    { queue := next, events := inbox.events ++ [event] }

theorem step_eq_some {inbox next : Inbox Q} {c : QueueCall ι} :
    inbox.step c = some next ↔ ∃ event, inbox.queue.call c = some (event, next.queue) ∧
      next.events = inbox.events ++ [event] := by
  rw [step, Option.map_eq_some_iff]
  refine ⟨?_, ?_⟩
  · rintro ⟨⟨event, queue⟩, called, rfl⟩
    exact ⟨event, called, rfl⟩
  · obtain ⟨queue, log⟩ := next
    rintro ⟨event, called, rfl⟩
    exact ⟨(event, queue), called, rfl⟩

/-- An inbox nothing shut down, whose history is a run of the bounded multiset. -/
structure Refines (inbox : Inbox Q) : Prop where
  running : inbox.queue.shutdownFlag = false
  run : BoundedBag.Run Message.rank Config.maxQueueSize 0 inbox.events inbox.queue.contents

omit [Inhabited ι] in
theorem Refines.size_le {inbox : Inbox Q} (refines : inbox.Refines) :
    inbox.queue.size ≤ Config.maxQueueSize := by
  rw [← MessageQueue.card_contents]
  exact refines.run.card_le (Nat.zero_le _)

omit [Inhabited ι] in
theorem Refines.initial (ownerID : ℤ) : (initial ownerID : Inbox Q).Refines where
  running := rfl
  run := by
    change BoundedBag.Run _ _ 0 [] (MessageQueue.new ownerID : MessageQueue Q).contents
    rw [MessageQueue.contents_new]
    exact .nil

theorem Refines.step {inbox next : Inbox Q} {c : QueueCall ι} (refines : inbox.Refines)
    (taken : inbox.step c = some next) : next.Refines := by
  obtain ⟨event, called, events⟩ := step_eq_some.mp taken
  obtain ⟨step, running⟩ := MessageQueue.call_refines refines.running refines.size_le called
  refine ⟨running, ?_⟩
  rw [events]
  exact refines.run.snoc step

/-- Every run of the inbox is a run of the bounded multiset. -/
theorem refines_run {ownerID : ℤ} {calls : List (QueueCall ι)} {inbox : Inbox Q}
    (run : exec step (initial ownerID) calls = some inbox) : inbox.Refines :=
  exec_invariant Refines (fun _ _ _ => Refines.step) (.initial ownerID) run

/-- Receives, blocking or not, with no enqueue in between return what a snapshot
lists. -/
theorem receives_eq_snapshot {inbox : Inbox Q} (running : inbox.queue.shutdownFlag = false)
    {receives : List (QueueCall ι)} (kinds : ∀ c ∈ receives, c.IsReceive)
    (enough : receives.length ≤ inbox.queue.size) :
    ∃ last, exec step inbox receives = some last ∧
      last.events = inbox.events ++
        (inbox.queue.getSnapshot.take receives.length).map BoundedBag.Event.removed := by
  induction receives generalizing inbox with
  | nil =>
      refine ⟨inbox, rfl, ?_⟩
      rw [List.length_nil, List.take_zero, List.map_nil, List.append_nil]
  | cons c rest ih =>
      have nonempty : inbox.queue.size ≠ 0 := by
        rw [List.length_cons] at enough
        omega
      obtain ⟨msg, queue, called, takes⟩ : ∃ msg queue,
          inbox.queue.call c = some (.removed msg, queue) ∧ inbox.queue.Takes msg queue :=
        MessageQueue.call_receive running nonempty (kinds c List.mem_cons_self)
      have size := takes.size
      have remaining : rest.length ≤ queue.size := by
        rw [List.length_cons] at enough
        omega
      obtain ⟨last, run, events⟩ := @ih ⟨queue, inbox.events ++ [.removed msg]⟩
        (takes.shutdownFlag.trans running)
        (fun other member => kinds other (List.mem_cons_of_mem c member)) remaining
      refine ⟨last, exec_cons_eq_some.mpr ⟨_, step_eq_some.mpr ⟨_, called, rfl⟩, run⟩, ?_⟩
      rw [events, takes.snapshot, List.length_cons, List.take_succ_cons, List.map_cons,
        List.append_assoc]
      rfl

end Inbox

/-- **The inbox is a bounded priority multiset.** In every run of calls from the empty
queue: the comparator is a strict weak order; the calls so far are a run of the
bounded multiset with the same outcomes; the size never exceeds the capacity, and a
message is rejected, changing nothing, exactly at the capacity; a receive takes one
stored message, of maximal priority and then aging counter, and one on an empty queue
leaves queue and out parameter as they are; and a snapshot is a permutation of the
contents, non-increasing, and what receives with no enqueue in between return. -/
theorem inboxRefinesBoundedBag {ownerID : ℤ} {calls : List (QueueCall ι)} {inbox : Inbox Q}
    (run : exec Inbox.step (.initial ownerID) calls = some inbox) :
    IsStrictWeakOrder (Message ι) (fun a b => MessageComparator a b = true) ∧
      BoundedBag.Run Message.rank Config.maxQueueSize 0 inbox.events inbox.queue.contents ∧
      inbox.queue.size ≤ Config.maxQueueSize ∧
      (∀ msg, ((inbox.queue.enqueue msg).1 = false ↔
            inbox.queue.size = Config.maxQueueSize) ∧
          ((inbox.queue.enqueue msg).1 = false → (inbox.queue.enqueue msg).2 = inbox.queue) ∧
          ((inbox.queue.enqueue msg).1 = true →
            (inbox.queue.enqueue msg).2.contents = msg ::ₘ inbox.queue.contents)) ∧
      (∀ out, (inbox.queue.size = 0 ∧
            inbox.queue.nonBlockingReceive out = (false, out, inbox.queue)) ∨
          ∃ msg next, inbox.queue.nonBlockingReceive out = (true, msg, next) ∧
            inbox.queue.Takes msg next) ∧
      (∀ msg next, inbox.queue.blockingReceive = some (msg, next) →
          inbox.queue.Takes msg next) ∧
      (inbox.queue.getSnapshot : Multiset (Message ι)) = inbox.queue.contents ∧
      (inbox.queue.getSnapshot.Pairwise fun a b => b.rank ≤ a.rank) ∧
      ∀ receives : List (QueueCall ι), (∀ c ∈ receives, c.IsReceive) →
        receives.length ≤ inbox.queue.size → ∃ last, exec Inbox.step inbox receives = some last ∧
          last.events = inbox.events ++
            (inbox.queue.getSnapshot.take receives.length).map BoundedBag.Event.removed := by
  have refines := Inbox.refines_run run
  refine ⟨messageComparator_isStrictWeakOrder, refines.run, refines.size_le, fun msg => ?_,
    fun out => inbox.queue.nonBlockingReceive_cases out,
    fun msg next => MessageQueue.takes_of_blockingReceive refines.running,
    inbox.queue.coe_getSnapshot, inbox.queue.pairwise_getSnapshot,
    fun receives kinds enough => Inbox.receives_eq_snapshot refines.running kinds enough⟩
  have bounded := refines.size_le
  rcases inbox.queue.enqueue_cases msg with ⟨full, rejected⟩ |
    ⟨room, next, accepted, contents, -⟩
  · rw [rejected]
    exact ⟨iff_of_true rfl (le_antisymm bounded full), fun _ => rfl,
      fun stored => (Bool.false_ne_true stored).elim⟩
  · rw [accepted]
    exact ⟨iff_of_false (fun full => Bool.false_ne_true full.symm) room.ne,
      fun full => (Bool.false_ne_true full.symm).elim, fun _ => contents⟩

/-- A high message passes a low one stored before it. -/
theorem inboxRefinesBoundedBag_lowAndHigh :
    let low := Message.create 1 2 "" .low 1 ""
    let high := Message.create 1 2 "" .high 2 ""
    ∃ inbox : Inbox (PriorityQueue.scanned (MessageComparator (ι := Unit))),
      exec Inbox.step (.initial 2) [.enqueue low, .enqueue high, .getSnapshot,
        .nonBlockingReceive .default] = some inbox ∧
      inbox.events = [.inserted low, .inserted high, .listed [high, low], .removed high] ∧
      BoundedBag.Run Message.rank Config.maxQueueSize 0 inbox.events inbox.queue.contents := by
  intro low high
  have reached : (exec (Inbox.step (Q := PriorityQueue.scanned MessageComparator)) (.initial 2)
      [.enqueue low, .enqueue high, .getSnapshot, .nonBlockingReceive .default]).any
        (fun inbox => decide (inbox.events =
          [.inserted low, .inserted high, .listed [high, low], .removed high])) = true := by
    decide +kernel
  obtain ⟨inbox, run, events⟩ := (Option.any_eq_true _ _).mp reached
  exact ⟨inbox, run, of_decide_eq_true events, (inboxRefinesBoundedBag run).2.1⟩

end MessagePassing
