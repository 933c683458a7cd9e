import MessagePassing.Foundation.WaitSet
import MessagePassing.Queue.Refinement

/-! # Blocking receives and wakeups

Any number of threads call `enqueue`, `blockingReceive` and `nonBlockingReceive` on
one queue. A step is one section under the queue's mutex. A blocking receive that
finds nothing releases the mutex and sleeps in one step; woken by a notification or
spuriously, it takes the mutex again in a step of its own, so other threads may empty
the queue before it. If a receiver sleeps, as many others are notified and have not
run again as there are messages (`Blocking.Sound`).
-/

namespace MessagePassing

open Transition

variable {ι T : Type} [Inhabited ι] [DecidableEq T]
  {Q : PriorityQueue (Message ι) MessageComparator}

/-- An inbox, the threads waiting on its condition variable, and what blocking receives
returned to whom. -/
structure Blocking (Q : PriorityQueue (Message ι) MessageComparator) (T : Type)
    [DecidableEq T] where
  inbox : Inbox Q
  waiters : WaitSet T
  returned : List (T × Message ι)

/-- A call by a thread that is not waiting, a spurious wakeup, or a woken thread taking
the mutex again. An enqueue says which sleeper its notification would wake. -/
inductive BlockingAct (ι T : Type)
  | enqueue (caller : T) (msg : Message ι) (sleeper : T)
  | nonBlockingReceive (caller : T) (out : Message ι)
  | blockingReceive (caller : T)
  | spuriousWakeup (sleeper : T)
  | resume (receiver : T)

namespace Blocking

def initial (ownerID : ℤ) : Blocking Q T where
  inbox := .initial ownerID
  waiters := .empty
  returned := []

/-- A receiver holding the mutex takes a message, or goes to sleep. -/
def receive (s : Blocking Q T) (t : T) (running : t ∉ s.waiters.waiting) : Blocking Q T :=
  match s.inbox.queue.blockingReceive with
  | some (msg, queue) =>
      { s with
        inbox := { queue := queue, events := s.inbox.events ++ [.removed msg] }
        returned := s.returned ++ [(t, msg)] }
  | none => { s with waiters := s.waiters.sleep t running }

def step (s : Blocking Q T) : BlockingAct ι T → Option (Blocking Q T)
  | .enqueue caller msg sleeper =>
      if caller ∈ s.waiters.waiting then none
      else
        let (accepted, queue) := s.inbox.queue.enqueue msg
        if accepted then
          (s.waiters.notifyOne sleeper).map fun waiters =>
            { s with
              inbox := { queue := queue, events := s.inbox.events ++ [.inserted msg] }
              waiters := waiters }
        else
          some { s with inbox := { queue := queue, events := s.inbox.events ++ [.refused msg] } }
  | .nonBlockingReceive caller out =>
      if caller ∈ s.waiters.waiting then none
      else (s.inbox.step (.nonBlockingReceive out)).map fun inbox => { s with inbox := inbox }
  | .blockingReceive caller =>
      if waiting : caller ∈ s.waiters.waiting then none else some (s.receive caller waiting)
  | .spuriousWakeup sleeper =>
      (s.waiters.wakeSpuriously sleeper).map fun waiters => { s with waiters := waiters }
  | .resume receiver =>
      if awake : receiver ∈ s.waiters.woken then
        some (receive { s with waiters := s.waiters.resume receiver } receiver
          (WaitSet.notMem_waiting_resume awake))
      else none

/-- What every run keeps: the inbox is a bounded multiset, sleepers are covered by
notified threads, and blocking receives returned messages removed from the inbox. -/
structure Sound (s : Blocking Q T) : Prop where
  refines : s.inbox.Refines
  covers : s.waiters.Covers s.inbox.queue.size
  returned : ((s.returned.map Prod.snd : List (Message ι)) : Multiset (Message ι)) ≤
    BoundedBag.removals s.inbox.events

omit [Inhabited ι] in
theorem Sound.initial (ownerID : ℤ) : (initial ownerID : Blocking Q T).Sound where
  refines := .initial ownerID
  covers := by
    change WaitSet.empty.Covers (MessageQueue.new ownerID : MessageQueue Q).size
    rw [MessageQueue.size_new]
    exact .zero _
  returned := le_rfl

/-- Taking a message uses up the cover of one item; sleeping needs none. -/
theorem receive_sound {s : Blocking Q T} {t : T} (refines : s.inbox.Refines)
    (covers : ∀ fewer, s.inbox.queue.size = fewer + 1 → s.waiters.Covers fewer)
    (returned : ((s.returned.map Prod.snd : List (Message ι)) : Multiset (Message ι)) ≤
      BoundedBag.removals s.inbox.events)
    (running : t ∉ s.waiters.waiting) : (s.receive t running).Sound := by
  unfold receive
  rcases MessageQueue.blockingReceive_cases refines.running with ⟨empty, asleep⟩ |
    ⟨msg, queue, received, takes⟩
  · rw [asleep]
    refine ⟨refines, ?_, returned⟩
    change (s.waiters.sleep t running).Covers s.inbox.queue.size
    rw [empty]
    exact .zero _
  · rw [received]
    refine ⟨⟨takes.shutdownFlag.trans refines.running, refines.run.snoc takes.step⟩,
      covers _ takes.size, ?_⟩
    rw [BoundedBag.removals_append, List.map_append, ← Multiset.coe_add, ← Multiset.coe_add]
    exact Multiset.add_le_add_right returned

theorem Sound.step {s next : Blocking Q T} {act : BlockingAct ι T} (sound : s.Sound)
    (taken : s.step act = some next) : next.Sound := by
  obtain ⟨refines, covers, returned⟩ := sound
  cases act with
  | enqueue caller msg sleeper =>
      simp only [Blocking.step] at taken
      split at taken
      · cases taken
      · rcases s.inbox.queue.enqueue_cases msg with ⟨full, rejected⟩ |
          ⟨room, queue, accepted, contents, -⟩
        · have refused : s.inbox.step (.enqueue msg) =
              some ⟨s.inbox.queue, s.inbox.events ++ [.refused msg]⟩ :=
            Inbox.step_eq_some.mpr ⟨_, by rw [MessageQueue.call, rejected]; rfl, rfl⟩
          simp only [rejected, Bool.false_eq_true, ↓reduceIte, Option.some.injEq] at taken
          subst taken
          refine ⟨refines.step refused, covers, ?_⟩
          rw [BoundedBag.removals_append]
          exact (List.append_nil (BoundedBag.removals s.inbox.events)).symm ▸ returned
        · have inserted : s.inbox.step (.enqueue msg) =
              some ⟨queue, s.inbox.events ++ [.inserted msg]⟩ :=
            Inbox.step_eq_some.mpr ⟨_, by rw [MessageQueue.call, accepted]; rfl, rfl⟩
          simp only [accepted, ↓reduceIte] at taken
          obtain ⟨waiters, notified, rfl⟩ := Option.map_eq_some_iff.mp taken
          have size : queue.size = s.inbox.queue.size + 1 := by
            rw [← MessageQueue.card_contents, contents, Multiset.card_cons,
              MessageQueue.card_contents]
          refine ⟨refines.step inserted, ?_, ?_⟩
          · change waiters.Covers queue.size
            rw [size]
            exact covers.notifyOne notified
          · rw [BoundedBag.removals_append]
            exact (List.append_nil (BoundedBag.removals s.inbox.events)).symm ▸ returned
  | nonBlockingReceive caller out =>
      simp only [Blocking.step] at taken
      split at taken
      · cases taken
      · obtain ⟨inbox, received, rfl⟩ := Option.map_eq_some_iff.mp taken
        obtain ⟨event, called, events⟩ := Inbox.step_eq_some.mp received
        refine ⟨refines.step received, covers.mono ?_, returned.trans ?_⟩
        · exact MessageQueue.size_le_of_call called
        · rw [events, BoundedBag.removals_append, ← Multiset.coe_add]
          exact Multiset.le_add_right _ _
  | blockingReceive caller =>
      simp only [Blocking.step] at taken
      split at taken
      · cases taken
      · obtain rfl := Option.some.inj taken
        exact receive_sound refines (fun fewer more => covers.mono (by omega)) returned _
  | spuriousWakeup sleeper =>
      obtain ⟨waiters, woke, rfl⟩ := Option.map_eq_some_iff.mp taken
      exact ⟨refines, covers.wakeSpuriously woke, returned⟩
  | resume receiver =>
      simp only [Blocking.step] at taken
      split at taken
      · obtain rfl := Option.some.inj taken
        refine receive_sound (s := { s with waiters := s.waiters.resume receiver }) refines
          (fun fewer more => ?_) returned _
        change s.inbox.queue.size = fewer + 1 at more
        rw [more] at covers
        exact covers.resume
      · cases taken

/-- A receiver holding the mutex sleeps without a message, or takes one. -/
theorem receive_cases {s : Blocking Q T} {t : T} (running : s.inbox.queue.shutdownFlag = false)
    (outside : t ∉ s.waiters.waiting) :
    (s.inbox.queue.size = 0 ∧
        s.receive t outside = { s with waiters := s.waiters.sleep t outside }) ∨
      ∃ msg, s.inbox.queue.size ≠ 0 ∧
        (s.receive t outside).inbox.events = s.inbox.events ++ [.removed msg] ∧
        (s.receive t outside).waiters = s.waiters ∧
        (s.receive t outside).returned = s.returned ++ [(t, msg)] := by
  unfold receive
  rcases MessageQueue.blockingReceive_cases running with ⟨empty, asleep⟩ |
    ⟨msg, queue, received, takes⟩
  · rw [asleep]
    exact Or.inl ⟨empty, rfl⟩
  · rw [received]
    have size := takes.size
    exact Or.inr ⟨msg, by omega, rfl, rfl, rfl⟩

/-- What is enqueued into a queue that is not full is stored, and nobody else runs. -/
theorem enqueue_step {s next : Blocking Q T} {caller sleeper : T} {msg : Message ι}
    (room : s.inbox.queue.size < Config.maxQueueSize)
    (taken : s.step (.enqueue caller msg sleeper) = some next) :
    next.inbox.events = s.inbox.events ++ [.inserted msg] ∧ next.returned = s.returned ∧
      next.waiters.waiting = s.waiters.waiting := by
  simp only [Blocking.step] at taken
  split at taken
  · cases taken
  · rcases s.inbox.queue.enqueue_cases msg with ⟨full, -⟩ | ⟨-, queue, accepted, -⟩
    · exact absurd room (not_lt.mpr full)
    · simp only [accepted, ↓reduceIte] at taken
      obtain ⟨waiters, notified, rfl⟩ := Option.map_eq_some_iff.mp taken
      exact ⟨rfl, rfl, WaitSet.waiting_notifyOne notified⟩

/-- A thread that is not waiting can enqueue into a queue that is not full. -/
theorem enqueue_enabled {s : Blocking Q T} {caller sleeper : T} (msg : Message ι)
    (room : s.inbox.queue.size < Config.maxQueueSize) (outside : caller ∉ s.waiters.waiting)
    (only : ∀ t ∈ s.waiters.asleep, t = sleeper) :
    ∃ next, s.step (.enqueue caller msg sleeper) = some next := by
  rcases s.inbox.queue.enqueue_cases msg with ⟨full, -⟩ | ⟨-, queue, accepted, -⟩
  · exact absurd room (not_lt.mpr full)
  · obtain ⟨waiters, notified⟩ := WaitSet.notifyOne_enabled only
    simp only [Blocking.step, if_neg outside, accepted, ↓reduceIte, notified, Option.map_some,
      Option.some.injEq, exists_eq']

theorem sound_run {ownerID : ℤ} {acts : List (BlockingAct ι T)} {s : Blocking Q T}
    (run : exec step (initial ownerID) acts = some s) : s.Sound :=
  exec_invariant Sound (fun _ _ _ => Sound.step) (.initial ownerID) run

end Blocking

/-- **No lost wakeup and no phantom message.** In every reachable state: if a receiver
sleeps, at least as many others are notified and have not run again as there are
messages, so no message is left to sleepers alone; a blocking receive that returns
takes a stored message; and blocking receives returned only messages enqueued, each
once. -/
theorem noLostWakeup {ownerID : ℤ} {acts : List (BlockingAct ι T)} {s : Blocking Q T}
    (run : exec Blocking.step (.initial ownerID) acts = some s) :
    (s.waiters.asleep ≠ ∅ → s.inbox.queue.size ≤ s.waiters.notified.card) ∧
      (s.inbox.queue.size ≠ 0 → s.waiters.asleep ≠ ∅ → s.waiters.notified ≠ ∅) ∧
      (∀ msg next, s.inbox.queue.blockingReceive = some (msg, next) →
        s.inbox.queue.Takes msg next) ∧
      ((s.returned.map Prod.snd : List (Message ι)) : Multiset (Message ι)) ≤
        BoundedBag.insertions s.inbox.events := by
  obtain ⟨refines, covers, returned⟩ := Blocking.sound_run run
  refine ⟨covers, fun nonempty sleeping nobody => ?_, fun msg next received => ?_,
    returned.trans ?_⟩
  · have enough := covers sleeping
    rw [nobody, Finset.card_empty] at enough
    omega
  · exact MessageQueue.takes_of_blockingReceive refines.running received
  · have conserved := refines.run.conserve
    rw [zero_add] at conserved
    rw [conserved]
    exact Multiset.le_add_left _ _

/-- Two receivers sleep, one is notified of a message, and the other sleeps on. -/
theorem noLostWakeup_twoReceivers :
    let msg := Message.create 1 2 "" .low 1 ""
    ∃ s : Blocking (PriorityQueue.scanned (MessageComparator (ι := Unit))) ℕ,
      exec Blocking.step (.initial 2) [.blockingReceive 1, .blockingReceive 2,
        .enqueue 3 msg 1] = some s ∧
      s.waiters.asleep = {2} ∧ s.inbox.queue.size = 1 ∧ 1 ≤ s.waiters.notified.card := by
  intro msg
  have reached : (exec (Blocking.step (Q := PriorityQueue.scanned MessageComparator) (T := ℕ))
      (.initial 2) [.blockingReceive 1, .blockingReceive 2, .enqueue 3 msg 1]).any
        (fun s => decide (s.waiters.asleep = {2} ∧ s.inbox.queue.size = 1)) = true := by
    decide +kernel
  obtain ⟨s, run, facts⟩ := (Option.any_eq_true _ _).mp reached
  obtain ⟨asleep, size⟩ := of_decide_eq_true facts
  refine ⟨s, run, asleep, size, size ▸ (noLostWakeup run).1 ?_⟩
  rw [asleep]
  decide

end MessagePassing
