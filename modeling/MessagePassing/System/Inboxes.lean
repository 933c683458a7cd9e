import MessagePassing.Queue.Refinement
import MessagePassing.System.Conservation

/-! # The inboxes inside the system

Every step of the system makes one call on an inbox or none (`System.inboxCall`), so in every
run each inbox goes through the run of the calls that the steps of this run make, and its
owner received what they removed, in order (`System.inbox_run`). So no inbox ever exceeds its
capacity (`System.inbox_size_le`), and while a message waits in one, those received before it
are up to the capacity those stored meanwhile that do not rank below it
(`System.inbox_overtakers`).
-/

namespace MessagePassing

open Transition

variable {Q : PriorityQueue (Message Ticket) MessageComparator}

/-- The call a process makes on its inbox where it stands. -/
def ProcessPoint.inboxCall : ProcessPoint → Option (QueueCall Ticket)
  | .receive | .retry => some (.nonBlockingReceive .default)
  | _ => none

namespace Process

variable {process next : Process Q}

/-- What a call, if any, does to the inbox and to the messages received. -/
inductive Called (process next : Process Q) : Option (QueueCall Ticket) → Prop
  | kept : next.queue = process.queue → next.received = process.received →
      Called process next none
  | made (call : QueueCall Ticket) (event : BoundedBag.Event (Message Ticket)) :
      process.queue.call call = some (event, next.queue) →
      next.received = process.received ++ event.removal.toList →
      Called process next (some call)

/-- A receive is a call on the inbox. -/
theorem called_tryReceive (process : Process Q) (state : ProcessState)
    (later : Bool → Message Ticket → ProcessPoint) :
    Called process (({ process with state := state } : Process Q).tryReceive later)
      (some (.nonBlockingReceive .default)) := by
  unfold tryReceive
  rcases process.queue.nonBlockingReceive_cases .default with ⟨-, nothing⟩ |
    ⟨out, queue, received, -⟩
  · simp only [nothing]
    refine .made _ .foundEmpty ?_ (List.append_nil _).symm
    simp only [MessageQueue.call, nothing, Bool.false_eq_true, ↓reduceIte]
  · simp only [received]
    refine .made _ (.removed out) ?_ rfl
    simp only [MessageQueue.call, received, ↓reduceIte]

/-- A process calls its inbox at two points of its loop. -/
theorem called_run {records : List LogRecord} (ran : process.run = some (next, records)) :
    Called process next process.point.inboxCall := by
  have silent (quiet : next.queue = process.queue ∧ next.received = process.received) :
      Called process next none := .kept quiet.1 quiet.2
  obtain ⟨queue, state, point, sentCount, receivedCount, received⟩ := process
  cases point with
  | stopped | send | sending => cases ran
  | receive =>
      obtain ⟨rfl, -⟩ := Prod.mk.injEq .. ▸ Option.some.inj ran
      exact called_tryReceive ⟨queue, state, .receive, sentCount, receivedCount, received⟩ _ _
  | retry =>
      obtain ⟨rfl, -⟩ := Prod.mk.injEq .. ▸ Option.some.inj ran
      exact called_tryReceive ⟨queue, state, .retry, sentCount, receivedCount, received⟩ _ _
  | countSent | block | unblock | report =>
      obtain ⟨rfl, -⟩ := Prod.mk.injEq .. ▸ Option.some.inj ran
      exact silent ⟨rfl, rfl⟩
  | check out =>
      simp only [run] at ran
      split at ran <;>
      · obtain ⟨rfl, -⟩ := Prod.mk.injEq .. ▸ Option.some.inj ran
        exact silent ⟨rfl, rfl⟩

end Process

namespace System

variable {s next : System Q} {act : Action}

/-- The call that a step makes on the inbox of a process: the dispatcher delivers to it, or the
process looks for a message. -/
def inboxCall (id : ℤ) (s : System Q) : Action → Option (QueueCall Ticket)
  | .dispatch =>
      match s.dispatcher with
      | .deliver msg =>
          if msg.receiverID = id ∧ id ∈ s.registry then some (.enqueue msg) else none
      | _ => none
  | .run other => if other = id then (s.processes id).point.inboxCall else none
  | _ => none

/-- The dispatcher calls the inbox of the receiver. -/
theorem called_deliver {msg : Message Ticket} (hand : s.dispatcher = .deliver msg)
    (registered : msg.receiverID ∈ s.registry) :
    (s.processes msg.receiverID).Called (s.dispatchLoop.processes msg.receiverID)
      (some (.enqueue msg)) := by
  have target : s.getProcess msg.receiverID = some (s.processes msg.receiverID) := if_pos registered
  rw [dispatchLoop]
  simp only [hand, target]
  rcases (s.processes msg.receiverID).queue.enqueue_cases msg with ⟨-, rejected⟩ |
    ⟨-, queue, accepted, -⟩
  · simp only [rejected, Bool.false_eq_true, ↓reduceIte]
    refine .made _ (.refused msg) ?_ (List.append_nil _).symm
    simp only [MessageQueue.call, rejected, Bool.false_eq_true, ↓reduceIte]
  · simp only [accepted, ↓reduceIte, setProcess_same]
    refine .made _ (.inserted msg) ?_ (List.append_nil _).symm
    simp only [MessageQueue.call, accepted, ↓reduceIte]

/-- Every step makes one call on an inbox or none, and does to it what the call does. -/
theorem called_step (taken : s.step act = some next) (id : ℤ) :
    (s.processes id).Called (next.processes id) (inboxCall id s act) := by
  have others (away : ∀ msg, s.Stores act msg → msg.receiverID ≠ id) (still : act ≠ .run id)
      (nothing : inboxCall id s act = none) :
      (s.processes id).Called (next.processes id) (inboxCall id s act) := by
    rw [nothing]
    rcases process_step (step_kind taken) id with ⟨queue, received⟩ | ⟨_, runs, -⟩ |
      ⟨msg, stores, here, -⟩
    · exact .kept queue received
    · exact absurd runs still
    · exact absurd here (away msg stores)
  cases act with
  | dispatch =>
      by_cases delivers : ∃ msg, s.dispatcher = .deliver msg ∧ msg.receiverID = id ∧ id ∈ s.registry
      · obtain ⟨msg, hand, rfl, registered⟩ := delivers
        obtain rfl := Option.some.inj taken
        simp only [inboxCall, hand, true_and, if_pos registered]
        exact called_deliver hand registered
      · refine others (fun msg stores here => delivers ⟨msg, stores.hand, here, ?_⟩)
          Action.noConfusion ?_
        · exact here ▸ stores.registered
        · simp only [inboxCall]
          split
          · rename_i msg hand
            exact if_neg fun here => delivers ⟨msg, hand, here⟩
          · rfl
  | run other =>
      by_cases here : other = id
      · subst here
        obtain ⟨⟨process, records⟩, ran, rfl⟩ := Option.map_eq_some_iff.mp taken
        change (s.processes other).Called ((s.setProcess other process).processes other) _
        rw [setProcess_same, inboxCall, if_pos rfl]
        exact Process.called_run ran
      · exact others (fun _ stores => absurd stores.act Action.noConfusion)
          (fun same => here (Action.run.inj same)) (if_neg here)
  | generateMessageID | enter | start | stop | send | proceed =>
      exact others (fun _ stores => absurd stores.act Action.noConfusion) Action.noConfusion rfl

/-- The calls that the steps of a run make on the inbox of a process, in order. -/
def inboxCalls (Q : PriorityQueue (Message Ticket) MessageComparator) (id : ℤ)
    (registry : Finset ℤ) (acts : List Action) : List (QueueCall Ticket) :=
  shown (inboxCall id) System.step (.initial registry : System Q) acts

/-- The inbox of a process is what the calls of the steps taken made of it. -/
def InboxRuns (registry : Finset ℤ) (past : List Action) (s : System Q) : Prop :=
  exec System.step (.initial registry) past = some s ∧ ∀ id, ∃ inbox : Inbox Q,
    exec Inbox.step (.initial id) (inboxCalls Q id registry past) = some inbox ∧
      inbox.queue = (s.processes id).queue ∧
      BoundedBag.removals inbox.events = (s.processes id).received

theorem InboxRuns.step {registry : Finset ℤ} {past : List Action} (runs : InboxRuns registry past s)
    (taken : s.step act = some next) : InboxRuns registry (past ++ [act]) next := by
  obtain ⟨reached, inboxes⟩ := runs
  refine ⟨exec_append_eq_some.mpr ⟨s, reached, exec_cons_eq_some.mpr ⟨next, taken, rfl⟩⟩,
    fun id => ?_⟩
  obtain ⟨inbox, run, queue, received⟩ := inboxes id
  rw [inboxCalls, shown_append_singleton reached act]
  have called := called_step taken id
  generalize inboxCall id s act = call at called
  cases called with
  | kept same kept =>
      refine ⟨inbox, ?_, queue.trans same.symm, received.trans kept.symm⟩
      rw [Option.toList_none, List.append_nil]
      exact run
  | made call event called more =>
      rw [← queue] at called
      refine ⟨⟨(next.processes id).queue, inbox.events ++ [event]⟩, ?_, rfl, ?_⟩
      · exact exec_append_eq_some.mpr ⟨inbox, run, exec_cons_eq_some.mpr
          ⟨_, Inbox.step_eq_some.mpr ⟨event, called, rfl⟩, rfl⟩⟩
      · rw [BoundedBag.removals_append, received, more]
        cases event <;> rfl

/-- **Every inbox of the system** goes through the run of the calls made on it. -/
theorem inbox_run {registry : Finset ℤ} {acts : List Action}
    (run : exec System.step (.initial registry) acts = some s) (id : ℤ) : ∃ inbox : Inbox Q,
      exec Inbox.step (.initial id) (inboxCalls Q id registry acts) = some inbox ∧
      inbox.queue = (s.processes id).queue ∧
      BoundedBag.removals inbox.events = (s.processes id).received :=
  (exec_invariant_past (InboxRuns registry) (fun _ _ _ _ runs taken => runs.step taken)
    ⟨rfl, fun id => ⟨.initial id, rfl, rfl, rfl⟩⟩ run).2 id

/-- No inbox exceeds its capacity. -/
theorem inbox_size_le {registry : Finset ℤ} {acts : List Action}
    (run : exec System.step (.initial registry) acts = some s) (id : ℤ) :
    (s.processes id).queue.size ≤ Config.maxQueueSize := by
  obtain ⟨inbox, calls, queue, -⟩ := inbox_run run id
  rw [← queue]
  exact (Inbox.refines_run calls).size_le

/-- A process holds no message twice. -/
theorem Conserved.held_nodup (conserved : s.Conserved) {id : ℤ}
    (addressed : Addressed s.registry id (s.processes id)) :
    ((s.processes id).queue.contents + ((s.processes id).received : Multiset _)).Nodup := by
  apply Multiset.Nodup.of_map Message.ticket
  have distinct : (s.located.map fun entry => entry.2.ticket).Nodup := by
    rw [conserved.tickets]
    exact Multiset.coe_nodup.mpr conserved.nodup
  have held := Multiset.nodup_of_le (Multiset.map_le_map (held_le_located addressed)) distinct
  rw [Process.held, entries, Multiset.map_add, Multiset.map_map, Multiset.map_map] at held
  rw [Multiset.map_add]
  exact held

/-- **Overtaking in the inboxes of the system.** In every run each inbox is what the calls that
its steps make do to an empty bounded multiset, and its owner received what they removed. While a
message waits there, those received before it are those stored meanwhile that do not rank below
it, except the fewer than a full inbox still stored. -/
theorem inbox_overtakers {registry : Finset ℤ} {acts : List Action}
    (run : exec System.step (.initial registry) acts = some s) (id : ℤ) :
    ∃ inbox : Inbox Q,
      exec Inbox.step (.initial id) (inboxCalls Q id registry acts) = some inbox ∧
      inbox.queue = (s.processes id).queue ∧
      BoundedBag.Run Message.rank Config.maxQueueSize 0 inbox.events inbox.queue.contents ∧
      BoundedBag.removals inbox.events = (s.processes id).received ∧
      ∀ msg wait, BoundedBag.Waits inbox.events msg wait →
        BoundedBag.overtakers wait ≤ BoundedBag.rivals Message.rank msg wait ∧
          BoundedBag.rivals Message.rank msg wait <
            BoundedBag.overtakers wait + Config.maxQueueSize := by
  obtain ⟨inbox, calls, queue, removed⟩ := inbox_run run id
  have bag := (Inbox.refines_run calls).run
  have conserved := bag.conserve
  rw [zero_add, removed, queue] at conserved
  have distinct : (BoundedBag.insertions inbox.events).Nodup := by
    rw [← Multiset.coe_nodup, conserved]
    exact (conserved_run run).held_nodup (addressed_run run id)
  exact ⟨inbox, calls, queue, bag, removed, fun msg wait waits =>
    ⟨bag.overtakers_le_rivals distinct waits, bag.rivals_lt distinct waits⟩⟩

/-- A low message is stored before a high one, which is received before it. -/
theorem inbox_overtakers_byHigh :
    let proceed := [.proceed 0 false, .proceed 0 false, .proceed 0 false]
    let acts := .enter (.create 1 2 "" .low 1 "") :: proceed ++ List.replicate 5 .dispatch ++
      .enter (.create 1 2 "" .high 2 "") :: proceed ++ List.replicate 5 .dispatch ++
      .start 2 :: .send 2 1 .low "" :: proceed ++ [.run 2, .run 2]
    ∃ s : System (PriorityQueue.scanned MessageComparator),
      exec System.step (.initial {1, 2}) acts = some s ∧
      (s.processes 2).received.map Message.priority = [.high] ∧ (s.processes 2).queue.size = 1 ∧
      ∃ inbox : Inbox (PriorityQueue.scanned MessageComparator),
        exec Inbox.step (.initial 2) (inboxCalls (.scanned MessageComparator) 2 {1, 2} acts) =
          some inbox ∧
        BoundedBag.removals inbox.events = (s.processes 2).received ∧
        ∀ msg wait, BoundedBag.Waits inbox.events msg wait →
          BoundedBag.overtakers wait ≤ BoundedBag.rivals Message.rank msg wait := by
  intro proceed acts
  have reached : (exec (System.step (Q := PriorityQueue.scanned MessageComparator))
      (.initial {1, 2}) acts).any (fun s => decide (
        (s.processes 2).received.map Message.priority = [.high] ∧
          (s.processes 2).queue.size = 1)) = true := by
    decide +kernel
  obtain ⟨s, run, facts⟩ := (Option.any_eq_true _ _).mp reached
  obtain ⟨high, one⟩ := of_decide_eq_true facts
  obtain ⟨inbox, calls, -, -, removed, bounds⟩ := inbox_overtakers run 2
  exact ⟨s, run, high, one, inbox, calls, removed, fun msg wait waits => (bounds msg wait waits).1⟩

end System

end MessagePassing
