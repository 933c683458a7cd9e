import MessagePassing.System.Accounting
import MessagePassing.System.Delivery
import MessagePassing.System.Journeys
import MessagePassing.System.Shutdown

/-! # Any process can reach any other

From every state two running processes can bring the system to rest between them: the calls
return, the scheduler is emptied and the receiver empties its inbox (`System.Up.clears`). What
the one then sends the other gets, and no third process need move (`channelsOpen`).
-/

namespace MessagePassing

open Transition

variable {Q : PriorityQueue (Message Ticket) MessageComparator}

/-- The steps of a process until it takes a message out of its inbox, if there is one. -/
def ProcessPoint.toTake : ProcessPoint → ℕ
  | .receive | .retry => 1
  | .block | .countSent => 2
  | .sending => 3
  | .stopped | .send => 7
  | .report _ => 8
  | .check _ => 9
  | .unblock _ => 10

/-- The steps of a process outside `sendMessage` until it sends. -/
def ProcessPoint.toSend : ProcessPoint → ℕ
  | .stopped | .send => 0
  | .report _ => 1
  | .check _ => 2
  | .unblock _ => 3
  | .retry => 4
  | .block => 5
  | .receive => 6
  | .countSent => 7
  | .sending => 8

/-- A step of the dispatcher, of a call or of one of two processes, which send to each other. -/
def Action.Between (a b : ℤ) : Action → Prop
  | .dispatch | .proceed _ _ => True
  | .send id targetID _ _ => id = a ∧ targetID = b ∨ id = b ∧ targetID = a
  | .run id => id = a ∨ id = b
  | .generateMessageID | .enter _ | .start _ | .stop _ => False

/-- Such a step that drops what is in a call, or that sends back. -/
def Action.Clears (a b : ℤ) : Action → Prop
  | .dispatch => True
  | .proceed _ drop => drop = true
  | .send id targetID _ _ => id = b ∧ targetID = a
  | .run id => id = a ∨ id = b
  | .generateMessageID | .enter _ | .start _ | .stop _ => False

theorem Action.Clears.between {a b : ℤ} {act : Action} (clears : act.Clears a b) :
    act.Between a b := by
  cases act with
  | dispatch | proceed => trivial
  | send => exact Or.inr clears
  | run => exact clears
  | generateMessageID | enter | start | stop => exact clears

namespace System

variable {s next : System Q} {act : Action} {a b : ℤ}

/-- What is left to do until the system is at rest between two processes. -/
def uncleared (s : System Q) (a b : ℤ) : ℕ :=
  1000 * (7 * s.scheduler.pendingCount + s.dispatcher.toPick) +
    100 * (s.processes b).queue.size + (s.processes b).point.toTake +
    (s.processes a).point.toSend + s.callsRest

/-- No message is on the way, the inbox of the one is empty and the other sends next. -/
structure Cleared (s : System Q) (a b : ℤ) : Prop where
  calls : s.calls = []
  pending : s.scheduler.pendingMessages = []
  dispatcher : s.dispatcher = .iteration ∨ s.dispatcher = .pick
  inbox : (s.processes b).queue.size = 0
  sends : (s.processes a).point = .send

/-- A state reached in which both processes run. -/
structure Up (s : System Q) (numProcesses : ℕ) (a b : ℤ) : Prop where
  reached : ∃ acts, exec System.step (.initial (registeredIDs numProcesses)) acts = some s
  sender : a ∈ registeredIDs numProcesses
  receiver : b ∈ registeredIDs numProcesses
  other : a ≠ b
  senderRuns : (s.processes a).point ≠ .stopped
  receiverRuns : (s.processes b).point ≠ .stopped

variable {numProcesses : ℕ}

theorem Up.registry (up : s.Up numProcesses a b) : s.registry = registeredIDs numProcesses := by
  obtain ⟨acts, run⟩ := up.reached
  exact registry_run run

theorem threads_run {registry : Finset ℤ} {acts : List Action}
    (run : exec System.step (.initial registry) acts = some s) : s.Threads :=
  exec_invariant Threads (fun _ _ _ => Threads.step) (.initial registry) run

/-- Nobody is stopped by a step between the two. -/
theorem Up.step (up : s.Up numProcesses a b) (between : act.Between a b)
    (taken : s.step act = some next) : next.Up numProcesses a b := by
  have runs (id : ℤ) (running : (s.processes id).point ≠ .stopped) :
      (next.processes id).point ≠ .stopped := by
    have moved := processStep taken id
    generalize next.processes id = process at moved ⊢
    cases moved with
    | keep | deliver => exact running
    | start | send | finish => exact ProcessPoint.noConfusion
    | stop stops =>
        rw [stops] at between
        exact between.elim
    | run process records _ turn =>
        cases turn <;> exact ProcessPoint.noConfusion
  obtain ⟨acts, run⟩ := up.reached
  exact ⟨⟨acts ++ [act], exec_append_eq_some.mpr ⟨s, run, exec_cons_eq_some.mpr
    ⟨next, taken, rfl⟩⟩⟩, up.sender, up.receiver, up.other, runs a up.senderRuns,
    runs b up.receiverRuns⟩

/-! ## Clearing the way -/

/-- A call that goes on, dropping its message, changes neither the scheduler nor the
dispatcher. -/
theorem proceed_dropping {index : ℕ} (taken : s.step (.proceed index true) = some next) :
    next.scheduler = s.scheduler ∧ next.dispatcher = s.dispatcher := by
  rw [System.step, sendMessage] at taken
  split at taken
  · cases taken
  · split at taken <;> obtain rfl := Option.some.inj taken <;> exact ⟨rfl, rfl⟩

/-- A call that goes on leaves the inboxes, and its process no further from where it stands. -/
theorem process_proceed {index : ℕ} {drop : Bool} (threads : s.Threads)
    (taken : s.step (.proceed index drop) = some next) (id : ℤ) :
    (next.processes id).queue = (s.processes id).queue ∧
      (next.processes id).point.toTake ≤ (s.processes id).point.toTake ∧
      (next.processes id).point.toSend ≤ (s.processes id).point.toSend := by
  have moved := processStep taken id
  generalize next.processes id = process at moved ⊢
  cases moved with
  | keep => exact ⟨rfl, le_rfl, le_rfl⟩
  | finish index drop call _ member owner =>
      have waits := threads.sending id (List.mem_filterMap.mpr ⟨call, member, owner⟩)
      rw [waits]
      exact ⟨rfl, Nat.le_succ 2, Nat.le_succ 7⟩
  | deliver _ dispatches => cases dispatches
  | start starts => cases starts
  | stop stops => cases stops
  | send _ _ _ sends => cases sends
  | run _ _ runs => cases runs

/-- A step of the dispatcher leaves the calls and where the processes stand, and delivers one
message at most. -/
theorem dispatch_frame (taken : s.step .dispatch = some next) :
    next.calls = s.calls ∧ ∀ id, (next.processes id).point = (s.processes id).point ∧
      (next.processes id).queue.size ≤ (s.processes id).queue.size + 1 := by
  constructor
  · cases step_kind taken with
    | control _ _ _ different => exact absurd rfl different
    | _ => rfl
  · intro id
    constructor
    · have moved := processStep taken id
      generalize next.processes id = process at moved ⊢
      cases moved with
      | keep | deliver => rfl
      | start starts => cases starts
      | stop stops => cases stops
      | send _ _ _ sends => cases sends
      | finish _ _ _ proceeds => cases proceeds
      | run _ _ runs => cases runs
    · rcases process_step (step_kind taken) id with ⟨same, -⟩ | ⟨records, runs, -⟩ |
        ⟨msg, -, -, contents, -⟩
      · rw [same]
        exact Nat.le_succ _
      · cases runs
      · rw [← MessageQueue.card_contents, contents, Multiset.card_cons,
          MessageQueue.card_contents]

/-- A step of the dispatcher brings it nearer to having no more to deliver. -/
theorem dispatch_less (taken : s.step .dispatch = some next)
    (busy : s.scheduler.pendingMessages ≠ [] ∨
      ¬ (s.dispatcher = .iteration ∨ s.dispatcher = .pick)) :
    7 * next.scheduler.pendingCount + next.dispatcher.toPick + 1 ≤
      7 * s.scheduler.pendingCount + s.dispatcher.toPick := by
  cases schedulingStep (step_kind taken) with
  | rest different => exact absurd rfl different
  | add _ different => exact absurd rfl different
  | advance _ point later _ _ same =>
      rw [point, later, same]
      exact le_rfl
  | age _ point later _ _ aged =>
      rw [point, later, aged, pendingCount_applyAging]
      exact le_rfl
  | pick msg _ point later _ picked =>
      have count := pendingCount_getNextMessage picked
      rw [point, later]
      simp only [DispatcherPoint.toPick]
      omega
  | idle _ point _ _ empty => exact (busy.resolve_left (not_not.mpr empty) (Or.inr point)).elim
  | put _ _ _ less _ same =>
      rw [same]
      omega

end System

namespace Process

variable {process : Process Q}

/-- A process with a message in its inbox comes nearer to taking one. -/
theorem exists_run_taking (nonempty : process.queue.size ≠ 0) (running : process.point ≠ .stopped)
    (sent : process.point ≠ .send) (returned : process.point ≠ .sending) :
    ∃ next records, process.run = some (next, records) ∧
      100 * next.queue.size + next.point.toTake + 1 ≤
        100 * process.queue.size + process.point.toTake := by
  have takes (later : Bool → Message Ticket → ProcessPoint)
      (near : ∀ out, (later true out).toTake ≤ 10) :
      100 * (process.tryReceive later).queue.size + (process.tryReceive later).point.toTake + 1 ≤
        100 * process.queue.size := by
    rcases process.queue.nonBlockingReceive_cases .default with ⟨empty, -⟩ |
      ⟨out, queue, received, takes⟩
    · exact absurd empty nonempty
    · have size := takes.size
      have after := near out
      simp only [tryReceive, received]
      omega
  obtain ⟨queue, state, point, sentCount, receivedCount, received⟩ := process
  cases point with
  | stopped => exact absurd rfl running
  | send => exact absurd rfl sent
  | sending => exact absurd rfl returned
  | receive =>
      have less := takes (fun got out => if got then .check out else .block) fun _ => Nat.le_succ 9
      exact ⟨_, _, rfl, less.trans (Nat.le_add_right _ _)⟩
  | retry =>
      have less := takes (fun _ out => .unblock out) fun _ => le_rfl
      exact ⟨_, _, rfl, less.trans (Nat.le_add_right _ _)⟩
  | countSent | block | unblock => exact ⟨_, _, rfl, le_rfl⟩
  | check out =>
      by_cases valid : out.messageID ≠ 0
      · exact ⟨_, _, if_pos valid, le_rfl⟩
      · exact ⟨_, _, if_neg valid, Nat.le_succ _⟩
  | report => exact ⟨_, _, rfl, le_rfl⟩

/-- A process outside `sendMessage` comes nearer to sending. -/
theorem exists_run_toSend (running : process.point ≠ .stopped) (sent : process.point ≠ .send)
    (returned : process.point ≠ .sending) :
    ∃ next records, process.run = some (next, records) ∧
      next.point.toSend + 1 ≤ process.point.toSend := by
  rcases process.exists_run with stopped | sends | sending | ⟨⟨next, records⟩, ran⟩
  · exact absurd stopped running
  · exact absurd sends sent
  · exact absurd sending returned
  · refine ⟨next, records, ran, ?_⟩
    cases turn_of_run ran with
    | countSent point | miss point | block point => exact point ▸ le_rfl
    | take _ _ point => exact point ▸ Nat.le_add_right 3 3
    | retake _ _ point | giveUp point | unblock _ point => exact point ▸ le_rfl
    | count _ point | report _ point => exact point ▸ le_rfl
    | ignore _ point => exact point ▸ Nat.le_succ 1

end Process

namespace System

variable {s next : System Q} {act : Action} {a b : ℤ} {numProcesses : ℕ}

theorem step_run {id : ℤ} {process : Process Q} {records : List LogRecord}
    (ran : (s.processes id).run = some (process, records)) : s.step (.run id) =
      some { s.setProcess id process with logger := s.logger.logAll records } := by
  rw [System.step, ran]
  rfl

/-- A send leaves the scheduler, the dispatcher and all other processes. -/
theorem send_frame {id targetID : ℤ} {msgPrio : Priority} {timestamp : String}
    (taken : s.step (.send id targetID msgPrio timestamp) = some next) :
    next.scheduler = s.scheduler ∧ next.dispatcher = s.dispatcher ∧
      ((next.processes id).queue = (s.processes id).queue ∧
        (next.processes id).point = .sending) ∧
      ∀ i ≠ id, next.processes i = s.processes i := by
  obtain ⟨-, sent⟩ := Option.ite_none_right_eq_some.mp taken
  obtain rfl := Option.some.inj sent
  refine ⟨rfl, rfl, ?_, fun i different => setProcess_other _ _ different⟩
  change ((s.generateMessageID.2.setProcess id _).processes id).queue = _ ∧
    ((s.generateMessageID.2.setProcess id _).processes id).point = _
  rw [setProcess_same]
  exact ⟨rfl, rfl⟩

/-- **The way can be cleared.** Until it is, the two processes, the dispatcher or a call can do
something for it. -/
theorem Up.descends (up : s.Up numProcesses a b) (unfinished : ¬ s.Cleared a b) :
    ∃ act next, act.Clears a b ∧ s.step act = some next ∧
      next.uncleared a b < s.uncleared a b := by
  obtain ⟨acts, run⟩ := up.reached
  have waits := waits_run run
  by_cases returned : s.calls = []
  · have outside (id : ℤ) : (s.processes id).point ≠ .sending := by
      intro inside
      have waiting := waits id inside
      rw [returned] at waiting
      exact absurd waiting List.not_mem_nil
    by_cases busy : s.scheduler.pendingMessages ≠ [] ∨
        ¬ (s.dispatcher = .iteration ∨ s.dispatcher = .pick)
    · -- The dispatcher delivers a message, at most one of them to the receiver.
      have less := dispatch_less (s := s) rfl busy
      obtain ⟨calls, frame⟩ := dispatch_frame (s := s) rfl
      obtain ⟨pointA, -⟩ := frame a
      obtain ⟨pointB, size⟩ := frame b
      refine ⟨.dispatch, _, trivial, rfl, ?_⟩
      simp only [uncleared, callsRest, calls, pointA, pointB]
      omega
    · obtain ⟨nothing, idle⟩ := not_or.mp busy
      by_cases nonempty : (s.processes b).queue.size ≠ 0
      · by_cases sends : (s.processes b).point = .send
        · obtain ⟨atLeast, atMost⟩ := mem_registeredIDs.mp up.sender
          have card : s.registry.card = numProcesses := by
            rw [up.registry, card_registeredIDs]
          have able : ∃ next, s.step (.send b a .low "") = some next :=
            exists_send_iff.mpr ⟨sends, atLeast, card ▸ atMost, up.other⟩
          obtain ⟨next, taken⟩ := able
          obtain ⟨scheduler, dispatcher, processes⟩ := send_frame taken
          obtain ⟨queueB, pointB⟩ := processes.1
          have calls := callsRest_send taken
          refine ⟨.send b a .low "", next, ⟨rfl, rfl⟩, taken, ?_⟩
          simp only [uncleared, scheduler, dispatcher, queueB, pointB, processes.2 a up.other,
            sends, calls, ProcessPoint.toTake]
          omega
        · obtain ⟨process, records, ran, less⟩ :=
            Process.exists_run_taking nonempty up.receiverRuns sends (outside b)
          refine ⟨.run b, _, Or.inr rfl, step_run ran, ?_⟩
          change 1000 * (7 * s.scheduler.pendingCount + s.dispatcher.toPick) +
            100 * ((s.setProcess b process).processes b).queue.size +
            ((s.setProcess b process).processes b).point.toTake +
            ((s.setProcess b process).processes a).point.toSend + s.callsRest < _
          rw [setProcess_same, setProcess_other s process up.other, uncleared]
          omega
      · by_cases sends : (s.processes a).point = .send
        · exact absurd ⟨returned, not_not.mp nothing, not_not.mp idle, not_not.mp nonempty, sends⟩
            unfinished
        · obtain ⟨process, records, ran, less⟩ :=
            Process.exists_run_toSend up.senderRuns sends (outside a)
          refine ⟨.run a, _, Or.inl rfl, step_run ran, ?_⟩
          change 1000 * (7 * s.scheduler.pendingCount + s.dispatcher.toPick) +
            100 * ((s.setProcess a process).processes b).queue.size +
            ((s.setProcess a process).processes b).point.toTake +
            ((s.setProcess a process).processes a).point.toSend + s.callsRest < _
          rw [setProcess_same, setProcess_other s process up.other.symm, uncleared]
          omega
  · obtain ⟨call, inside⟩ := List.exists_mem_of_ne_nil _ returned
    obtain ⟨index, next, taken⟩ := exists_proceed inside true
    obtain ⟨scheduler, dispatcher⟩ := proceed_dropping taken
    have threads := threads_run run
    obtain ⟨-, -, sendA⟩ := process_proceed threads taken a
    obtain ⟨queueB, takeB, -⟩ := process_proceed threads taken b
    have less := callsRest_proceed taken
    refine ⟨.proceed index true, next, rfl, taken, ?_⟩
    simp only [uncleared, scheduler, dispatcher, queueB]
    omega

/-- The way is cleared, whatever the steps for it keep. -/
theorem Up.clears (keeps : System Q → Prop)
    (kept : ∀ (s : System Q) act next, s.Up numProcesses a b → keeps s → act.Clears a b →
      s.step act = some next → keeps next)
    (up : s.Up numProcesses a b) (holds : keeps s) :
    ∃ later t, (∀ act ∈ later, act.Clears a b) ∧ exec System.step s later = some t ∧
      (t.Up numProcesses a b ∧ keeps t) ∧ t.Cleared a b := by
  have descends : ∀ s : System Q, s.Up numProcesses a b ∧ keeps s → ¬ s.Cleared a b →
      ∃ act next, act.Clears a b ∧ s.step act = some next ∧
        (next.Up numProcesses a b ∧ keeps next) ∧ next.uncleared a b < s.uncleared a b := by
    rintro s ⟨up, holds⟩ unfinished
    obtain ⟨act, next, clears, taken, less⟩ := up.descends unfinished
    exact ⟨act, next, clears, taken,
      ⟨up.step clears.between taken, kept s act next up holds clears taken⟩, less⟩
  exact exists_exec_final descends ⟨up, holds⟩

/-! ## A message on its way -/

/-- A message is the only one on the way to an inbox with room, or arrived there. -/
inductive Coming (s : System Q) (b : ℤ) (ticket : Ticket) : Prop
  | pending (msg : Message Ticket) : s.scheduler.pendingMessages = [msg] → msg.ticket = ticket →
      msg.receiverID = b → s.dispatcher.message = none →
      (s.processes b).queue.size < Config.maxQueueSize → Coming s b ticket
  | inHand (msg : Message Ticket) : s.dispatcher = .deliver msg → msg.ticket = ticket →
      msg.receiverID = b → (s.processes b).queue.size < Config.maxQueueSize → Coming s b ticket
  | arrived : ticket ∈ (s.processes b).tickets → Coming s b ticket

/-- Only the dispatcher fills an inbox or goes on to deliver. -/
theorem clears_frame (up : s.Up numProcesses a b) (clears : act.Clears a b)
    (different : act ≠ .dispatch) (taken : s.step act = some next) :
    next.scheduler = s.scheduler ∧ next.dispatcher = s.dispatcher ∧
      (next.processes b).queue.size ≤ (s.processes b).queue.size := by
  cases act with
  | dispatch => exact absurd rfl different
  | proceed index drop =>
      obtain rfl : drop = true := clears
      obtain ⟨scheduler, dispatcher⟩ := proceed_dropping taken
      obtain ⟨acts, run⟩ := up.reached
      obtain ⟨queue, -⟩ := process_proceed (threads_run run) taken b
      exact ⟨scheduler, dispatcher, (congrArg MessageQueue.size queue).le⟩
  | send id targetID msgPrio timestamp =>
      obtain ⟨rfl, -⟩ := clears
      obtain ⟨scheduler, dispatcher, ⟨queue, -⟩, -⟩ := send_frame taken
      exact ⟨scheduler, dispatcher, (congrArg MessageQueue.size queue).le⟩
  | run id =>
      obtain ⟨⟨process, records⟩, ran, rfl⟩ := Option.map_eq_some_iff.mp taken
      refine ⟨rfl, rfl, ?_⟩
      change ((s.setProcess id process).processes b).queue.size ≤ _
      by_cases here : b = id
      · subst here
        rw [setProcess_same]
        rcases run_takes ran with ⟨same, -⟩ | ⟨out, takes, -⟩
        · rw [same]
        · exact (Nat.le_succ _).trans_eq takes.size.symm
      · rw [setProcess_other s process here]
  | generateMessageID | enter | start | stop => exact clears.elim

theorem Coming.step {ticket : Ticket} (coming : s.Coming b ticket)
    (up : s.Up numProcesses a b) (clears : act.Clears a b) (taken : s.step act = some next) :
    next.Coming b ticket := by
  have kind := step_kind taken
  by_cases dispatches : act = .dispatch
  · subst dispatches
    cases coming with
    | pending msg alone named addressed free room =>
        have idle {out : Message Ticket} (hand : s.dispatcher = .deliver out) : False := by
          rw [hand] at free
          cases free
        cases kind with
        | control _ _ _ different => exact absurd rfl different
        | age =>
            refine .pending msg.age ?_ (msg.age_ticket.trans named)
              ((Message.carries_age msg).receiverID.trans addressed) rfl room
            rw [Scheduler.applyAging_pendingMessages, alone]
            rfl
        | advance => exact .pending msg alone named addressed rfl room
        | pick out rest point picked =>
            have only := Scheduler.out_mem picked
            rw [alone] at only
            obtain rfl := List.mem_singleton.mp only
            exact .inHand out rfl named addressed room
        | idle point nothing =>
            rw [Scheduler.getNextMessage_eq_none.mp nothing] at alone
            cases alone
        | accept _ _ hand => exact (idle hand).elim
        | reject _ _ hand => exact (idle hand).elim
        | discard _ hand => exact (idle hand).elim
        | countDelivered => exact .pending msg alone named addressed rfl room
        | logDelivered => exact .pending msg alone named addressed rfl room
        | note => exact .pending msg alone named addressed rfl room
    | inHand msg hand named addressed room =>
        subst addressed
        cases kind with
        | control _ _ _ different => exact absurd rfl different
        | accept other queue point registered _ contents =>
            obtain rfl := DispatcherPoint.deliver.inj (hand.symm.trans point)
            refine .arrived (named ▸ Process.mem_tickets_of_stored ?_)
            change msg ∈ ((s.setProcess msg.receiverID _).processes msg.receiverID).queue.contents
            rw [setProcess_same, contents]
            exact Multiset.mem_cons_self _ _
        | reject other record point registered full =>
            obtain rfl := DispatcherPoint.deliver.inj (hand.symm.trans point)
            exact absurd room (not_lt.mpr full)
        | discard other point unregistered =>
            obtain rfl := DispatcherPoint.deliver.inj (hand.symm.trans point)
            exact absurd (up.registry ▸ up.receiver) unregistered
        | age point => cases hand.symm.trans point
        | advance point => cases hand.symm.trans point
        | pick _ _ point => cases hand.symm.trans point
        | idle point => cases hand.symm.trans point
        | countDelivered _ point => cases hand.symm.trans point
        | logDelivered _ _ point => cases hand.symm.trans point
        | note _ _ point => rcases point with point | point <;> cases hand.symm.trans point
    | arrived arrived =>
        rcases tickets_step kind b with same | ⟨msg, -, more⟩
        · exact .arrived (same ▸ arrived)
        · exact .arrived (more ▸ Multiset.mem_cons_of_mem arrived)
  · obtain ⟨scheduler, dispatcher, stays⟩ := clears_frame up clears dispatches taken
    cases coming with
    | pending msg alone named addressed free room =>
        exact .pending msg (scheduler ▸ alone) named addressed (dispatcher ▸ free)
          (stays.trans_lt room)
    | inHand msg hand named addressed room =>
        exact .inHand msg (dispatcher ▸ hand) named addressed (stays.trans_lt room)
    | arrived arrived =>
        rcases tickets_step kind b with same | ⟨msg, -, more⟩
        · exact .arrived (same ▸ arrived)
        · exact .arrived (more ▸ Multiset.mem_cons_of_mem arrived)

/-- Once the way is cleared, the message was received. -/
theorem Coming.received {ticket : Ticket} (coming : s.Coming b ticket) (cleared : s.Cleared a b) :
    ∃ msg ∈ (s.processes b).received, msg.ticket = ticket := by
  cases coming with
  | pending msg alone =>
      rw [cleared.pending] at alone
      cases alone
  | inHand msg hand => rcases cleared.dispatcher with idle | idle <;> cases hand.symm.trans idle
  | arrived arrived =>
      have nothing : (s.processes b).queue.contents = 0 := by
        rw [← Multiset.card_eq_zero, MessageQueue.card_contents]
        exact cleared.inbox
      rw [Process.tickets, nothing, Multiset.map_zero, zero_add, Multiset.mem_coe] at arrived
      exact List.mem_map.mp arrived

theorem Up.run {acts : List Action} {t : System Q} (up : s.Up numProcesses a b)
    (between : ∀ act ∈ acts, act.Between a b) (run : exec System.step s acts = some t) :
    t.Up numProcesses a b :=
  exec_invariant_along (fun t => t.Up numProcesses a b)
    (fun _ _ _ up between taken => up.step between taken) up (along_of_forall_mem between _) run

end System

end MessagePassing
