import MessagePassing.Dispatcher.Loop
import MessagePassing.System.Process
import Mathlib.Data.Finset.Card
import Mathlib.Logic.Function.Basic

/-! # The whole message-passing system

The registry with its processes, the message manager with its scheduler and counters,
the logger, one dispatcher and any number of threads inside `sendMessage`. A step is
one access to shared state by one thread, so any interleaving of threads is a
schedule of steps; only a process draws the ID of its message and passes the message in one
step. A message is numbered when it is passed to `sendMessage`; beside
the program's state the system keeps what was passed, dropped, rejected and
discarded. `System.step_kind` lists everything a step can do, and nothing after this
file unfolds the step function.
-/

namespace MessagePassing

/-- Where a thread stands inside `sendMessage`. -/
inductive SendStage
  | entered
  | counted
  | dropped
  | queued
  deriving DecidableEq

/-- A thread inside `sendMessage`, by the process it is the thread of, if any. -/
structure SendCall where
  msg : Message Ticket
  stage : SendStage
  owner : Option ℤ
  deriving DecidableEq

/-- Where the dispatcher stands in an iteration. -/
inductive DispatcherPoint
  | iteration
  | pick
  | deliver (msg : Message Ticket)
  | countDelivered (msg : Message Ticket)
  | logDelivered (msg : Message Ticket)
  | logFull (msg : Message Ticket)
  | logUnknown (msg : Message Ticket)
  deriving DecidableEq

/-- The message in the dispatcher's hand, on its way to an inbox. -/
def DispatcherPoint.message : DispatcherPoint → Option (Message Ticket)
  | .deliver msg => some msg
  | _ => none

theorem DispatcherPoint.mem_message {point : DispatcherPoint} {msg : Message Ticket} :
    msg ∈ point.message ↔ point = .deliver msg := by
  cases point with
  | deliver other =>
      rw [message, Option.mem_def, Option.some.injEq, DispatcherPoint.deliver.injEq]
  | _ => exact ⟨nofun, nofun⟩

structure System (Q : PriorityQueue (Message Ticket) MessageComparator) where
  registry : Finset ℤ
  processes : ℤ → Process Q
  scheduler : Scheduler Ticket
  agingTimer : ℕ
  dispatcher : DispatcherPoint
  totalSent : ℕ
  totalDropped : ℕ
  totalDelivered : ℕ
  nextMessageID : ℤ
  logger : Logger
  calls : List SendCall
  issuedIDs : List ℤ
  sent : List Ticket
  dropped : List (Message Ticket)
  rejected : List (Message Ticket)
  discarded : List (Message Ticket)

/-- The steps of the threads: an extra caller takes a message ID or enters
`sendMessage`; a process is started, stopped, sends, or takes its next step; a thread
inside `sendMessage` goes on, drawing whether to drop; the dispatcher goes on. -/
inductive Action
  | generateMessageID
  | enter (msg : Message Unit)
  | start (id : ℤ)
  | stop (id : ℤ)
  | send (id targetID : ℤ) (msgPrio : Priority) (timestamp : String)
  | proceed (index : ℕ) (drop : Bool)
  | run (id : ℤ)
  | dispatch
  deriving DecidableEq

namespace System

variable {Q : PriorityQueue (Message Ticket) MessageComparator}

/-- Processes registered, none started. -/
def initial (registry : Finset ℤ) : System Q where
  registry := registry
  processes := Process.new
  scheduler := .new
  agingTimer := 0
  dispatcher := .iteration
  totalSent := 0
  totalDropped := 0
  totalDelivered := 0
  nextMessageID := 1
  logger := .initial
  calls := []
  issuedIDs := []
  sent := []
  dropped := []
  rejected := []
  discarded := []

/-- The next ID of the 32-bit counter. -/
def generateMessageID (s : System Q) : ℤ × System Q :=
  (s.nextMessageID,
    { s with
      nextMessageID := Int.bmod (s.nextMessageID + 1) (2 ^ 32)
      issuedIDs := s.issuedIDs ++ [s.nextMessageID] })

def getProcess (s : System Q) (id : ℤ) : Option (Process Q) :=
  if id ∈ s.registry then some (s.processes id) else none

def setProcess (s : System Q) (id : ℤ) (process : Process Q) : System Q :=
  { s with processes := Function.update s.processes id process }

/-- A thread enters `sendMessage`. -/
def enterSend (s : System Q) (msg : Message Unit) (owner : Option ℤ) : System Q :=
  { s with
    calls := s.calls ++ [{ msg := msg.stamp s.sent.length, stage := .entered, owner := owner }]
    sent := s.sent ++ [⟨s.sent.length, msg⟩] }

/-- The processes when a thread leaves `sendMessage`. -/
def returnTo (processes : ℤ → Process Q) : Option ℤ → ℤ → Process Q
  | some id => Function.update processes id { processes id with point := .countSent }
  | none => processes

/-- The next step of a thread inside `sendMessage`. -/
def sendMessage (s : System Q) (index : ℕ) (drop : Bool) : Option (System Q) :=
  match s.calls[index]? with
  | none => none
  | some call =>
      match call.stage with
      | .entered =>
          some { s with
            totalSent := s.totalSent + 1
            calls := s.calls.set index { call with stage := .counted } }
      | .counted =>
          if drop then
            some { s with
              totalDropped := s.totalDropped + 1
              dropped := s.dropped ++ [call.msg]
              calls := s.calls.set index { call with stage := .dropped } }
          else
            some { s with
              scheduler := s.scheduler.addMessage call.msg
              calls := s.calls.set index { call with stage := .queued } }
      | .dropped =>
          some { s with
            logger := s.logger.log
              { event := .msgDropped
                details := "DROPPED " ++ call.msg.toString
                ticket := some call.msg.ticket }
            calls := s.calls.eraseIdx index
            processes := returnTo s.processes call.owner }
      | .queued =>
          some { s with
            logger := s.logger.log
              { event := .msgSent
                details := "QUEUED  " ++ call.msg.toString
                ticket := some call.msg.ticket }
            calls := s.calls.eraseIdx index
            processes := returnTo s.processes call.owner }

/-- What an aging round writes to the log. -/
def agingRecords (scheduler : Scheduler Ticket) : List LogRecord :=
  scheduler.pendingMessages.filterMap fun msg =>
    msg.agingNotice.map fun text =>
      { event := .schedulerEvent, details := text, ticket := some msg.ticket }

theorem uncounted_agingRecords (scheduler : Scheduler Ticket) :
    ∀ record ∈ agingRecords scheduler, Logger.Uncounted record.event := by
  intro record member
  obtain ⟨msg, -, boosted⟩ := List.mem_filterMap.mp member
  obtain ⟨text, -, rfl⟩ := Option.map_eq_some_iff.mp boosted
  exact (by decide : Logger.Uncounted .schedulerEvent)

/-- The next step of the dispatcher. -/
def dispatchLoop (s : System Q) : System Q :=
  match s.dispatcher with
  | .iteration =>
      if s.agingTimer + 1 ≥ Dispatch.agingPeriod then
        { s with
          scheduler := s.scheduler.applyAging
          logger := s.logger.logAll (agingRecords s.scheduler)
          agingTimer := 0
          dispatcher := .pick }
      else { s with agingTimer := s.agingTimer + 1, dispatcher := .pick }
  | .pick =>
      match s.scheduler.getNextMessage with
      | some (msg, rest) => { s with scheduler := rest, dispatcher := .deliver msg }
      | none => { s with dispatcher := .iteration }
  | .deliver msg =>
      match s.getProcess msg.receiverID with
      | some target =>
          let (delivered, queue) := target.queue.enqueue msg
          if delivered then
            { s.setProcess msg.receiverID { target with queue := queue } with
              dispatcher := .countDelivered msg }
          else -- `enqueue` itself writes the first of two records; no counter changes
            { s with
              logger := s.logger.log
                { event := .queueFull
                  details := target.queue.fullNotice msg
                  ticket := some msg.ticket }
              rejected := s.rejected ++ [msg]
              dispatcher := .logFull msg }
      | none => { s with discarded := s.discarded ++ [msg], dispatcher := .logUnknown msg }
  | .countDelivered msg =>
      { s with totalDelivered := s.totalDelivered + 1, dispatcher := .logDelivered msg }
  | .logDelivered msg =>
      { s with
        logger := s.logger.log
          { event := .msgReceived
            details := "DELIVRD " ++ msg.toString ++ " -> " ++ (s.processes msg.receiverID).getName
            ticket := some msg.ticket }
        dispatcher := .iteration }
  | .logFull msg =>
      { s with
        logger := s.logger.log
          { event := .queueFull
            details := "FULL    Could not deliver MSG#" ++ ToString.toString msg.messageID ++
              " to " ++ (s.processes msg.receiverID).getName
            ticket := some msg.ticket }
        dispatcher := .iteration }
  | .logUnknown msg =>
      { s with
        logger := s.logger.log
          { event := .general
            details := "Unknown target P" ++ ToString.toString msg.receiverID
            ticket := some msg.ticket }
        dispatcher := .iteration }

def step (s : System Q) : Action → Option (System Q)
  | .generateMessageID => some s.generateMessageID.2
  | .enter msg => some (s.enterSend msg none)
  | .start id =>
      if id ∈ s.registry ∧ (s.processes id).point = .stopped then
        some (s.setProcess id { s.processes id with state := .running, point := .send })
      else none
  | .stop id =>
      if (s.processes id).point = .send then
        some (s.setProcess id { s.processes id with state := .idle, point := .stopped })
      else none
  | .send id targetID msgPrio timestamp =>
      if (s.processes id).point = .send ∧ 1 ≤ targetID ∧ targetID ≤ s.registry.card ∧
          targetID ≠ id then
        let (messageID, next) := s.generateMessageID
        let process := s.processes id
        some ((next.setProcess id { process with state := .running, point := .sending }).enterSend
          (process.buildMessage targetID msgPrio messageID timestamp) (some id))
      else none
  | .proceed index drop => s.sendMessage index drop
  | .run id =>
      (s.processes id).run.map fun (process, records) =>
        { s.setProcess id process with logger := s.logger.logAll records }
  | .dispatch => some s.dispatchLoop

@[simp] theorem setProcess_same (s : System Q) (id : ℤ) (process : Process Q) :
    (s.setProcess id process).processes id = process := Function.update_self ..

theorem setProcess_other (s : System Q) {id i : ℤ} (process : Process Q) (other : i ≠ id) :
    (s.setProcess id process).processes i = s.processes i := Function.update_of_ne other ..

/-- Leaving `sendMessage` changes neither an inbox nor what was received. -/
theorem returnTo_keeps (processes : ℤ → Process Q) (owner : Option ℤ) (id : ℤ) :
    (returnTo processes owner id).queue = (processes id).queue ∧
      (returnTo processes owner id).received = (processes id).received := by
  cases owner with
  | none => exact ⟨rfl, rfl⟩
  | some other =>
      by_cases here : id = other
      · subst here
        simp only [returnTo, Function.update_self, and_self]
      · simp only [returnTo, Function.update_of_ne here, and_self]

/-- Everything one step can do. -/
inductive StepKind (s : System Q) : Action → System Q → Prop
  | generate : StepKind s .generateMessageID s.generateMessageID.2
  | enter (msg : Message Unit) : StepKind s (.enter msg) (s.enterSend msg none)
  | control (act : Action) (id : ℤ) (process : Process Q) : act ≠ .dispatch →
      (s.processes id).Quiet process → (s.processes id).point ≠ .sending →
      StepKind s act (s.setProcess id process)
  | send (id targetID : ℤ) (msgPrio : Priority) (timestamp : String) (process : Process Q) :
      (s.processes id).Quiet process → (s.processes id).point ≠ .sending →
      process.point = .sending → targetID ≠ id →
      StepKind s (.send id targetID msgPrio timestamp)
        ((s.generateMessageID.2.setProcess id process).enterSend
          ((s.processes id).buildMessage targetID msgPrio s.nextMessageID timestamp) (some id))
  | count (index : ℕ) (drop : Bool) (front back : List SendCall) (call : SendCall) :
      s.calls = front ++ call :: back → call.stage = .entered →
      StepKind s (.proceed index drop)
        { s with
          totalSent := s.totalSent + 1
          calls := front ++ { call with stage := .counted } :: back }
  | drop (index : ℕ) (front back : List SendCall) (call : SendCall) :
      s.calls = front ++ call :: back → call.stage = .counted →
      StepKind s (.proceed index true)
        { s with
          totalDropped := s.totalDropped + 1
          dropped := s.dropped ++ [call.msg]
          calls := front ++ { call with stage := .dropped } :: back }
  | queue (index : ℕ) (front back : List SendCall) (call : SendCall) :
      s.calls = front ++ call :: back → call.stage = .counted →
      StepKind s (.proceed index false)
        { s with
          scheduler := s.scheduler.addMessage call.msg
          calls := front ++ { call with stage := .queued } :: back }
  | finish (index : ℕ) (drop : Bool) (front back : List SendCall) (call : SendCall)
      (record : LogRecord) :
      s.calls = front ++ call :: back →
      call.stage = .dropped ∧ record.event = .msgDropped ∨
        call.stage = .queued ∧ record.event = .msgSent →
      record.ticket = some call.msg.ticket →
      StepKind s (.proceed index drop)
        { s with
          logger := s.logger.log record
          calls := front ++ back
          processes := returnTo s.processes call.owner }
  | run (id : ℤ) (process : Process Q) (records : List LogRecord) :
      (s.processes id).run = some (process, records) →
      StepKind s (.run id)
        { s.setProcess id process with logger := s.logger.logAll records }
  | age : s.dispatcher = .iteration → Dispatch.agingPeriod ≤ s.agingTimer + 1 →
      StepKind s .dispatch
        { s with
          scheduler := s.scheduler.applyAging
          logger := s.logger.logAll (agingRecords s.scheduler)
          agingTimer := 0
          dispatcher := .pick }
  | advance : s.dispatcher = .iteration → s.agingTimer + 1 < Dispatch.agingPeriod →
      StepKind s .dispatch { s with agingTimer := s.agingTimer + 1, dispatcher := .pick }
  | pick (msg : Message Ticket) (rest : Scheduler Ticket) : s.dispatcher = .pick →
      s.scheduler.getNextMessage = some (msg, rest) →
      StepKind s .dispatch { s with scheduler := rest, dispatcher := .deliver msg }
  | idle : s.dispatcher = .pick → s.scheduler.getNextMessage = none →
      StepKind s .dispatch { s with dispatcher := .iteration }
  | accept (msg : Message Ticket) (queue : MessageQueue Q) : s.dispatcher = .deliver msg →
      msg.receiverID ∈ s.registry →
      (s.processes msg.receiverID).queue.size < Config.maxQueueSize →
      queue.contents = msg ::ₘ (s.processes msg.receiverID).queue.contents →
      queue.ownerID = (s.processes msg.receiverID).queue.ownerID →
      StepKind s .dispatch
        { s.setProcess msg.receiverID { s.processes msg.receiverID with queue := queue } with
          dispatcher := .countDelivered msg }
  | reject (msg : Message Ticket) (record : LogRecord) : s.dispatcher = .deliver msg →
      msg.receiverID ∈ s.registry →
      Config.maxQueueSize ≤ (s.processes msg.receiverID).queue.size →
      Logger.Uncounted record.event →
      StepKind s .dispatch
        { s with
          logger := s.logger.log record
          rejected := s.rejected ++ [msg]
          dispatcher := .logFull msg }
  | discard (msg : Message Ticket) : s.dispatcher = .deliver msg → msg.receiverID ∉ s.registry →
      StepKind s .dispatch
        { s with discarded := s.discarded ++ [msg], dispatcher := .logUnknown msg }
  | countDelivered (msg : Message Ticket) : s.dispatcher = .countDelivered msg →
      StepKind s .dispatch
        { s with totalDelivered := s.totalDelivered + 1, dispatcher := .logDelivered msg }
  | logDelivered (msg : Message Ticket) (record : LogRecord) : s.dispatcher = .logDelivered msg →
      record.event = .msgReceived → record.ticket = some msg.ticket →
      StepKind s .dispatch
        { s with logger := s.logger.log record, dispatcher := .iteration }
  | note (msg : Message Ticket) (record : LogRecord) :
      s.dispatcher = .logFull msg ∨ s.dispatcher = .logUnknown msg →
      Logger.Uncounted record.event →
      StepKind s .dispatch
        { s with logger := s.logger.log record, dispatcher := .iteration }

private theorem exists_split {α : Type} {list : List α} {index : ℕ} {a : α}
    (found : list[index]? = some a) :
    ∃ front back, list = front ++ a :: back ∧ list.eraseIdx index = front ++ back ∧
      ∀ b, list.set index b = front ++ b :: back := by
  obtain ⟨inside, rfl⟩ := List.getElem?_eq_some_iff.mp found
  refine ⟨list.take index, list.drop (index + 1), ?_, List.eraseIdx_eq_take_drop_succ .., ?_⟩
  · rw [List.getElem_cons_drop, List.take_append_drop]
  · intro b
    rw [List.set_eq_take_append_cons_drop, if_pos inside]

/-- Counting the calls when one of them changes. -/
theorem countP_middle (p : SendCall → Bool) (front back : List SendCall) (call : SendCall) :
    (front ++ call :: back).countP p = (front ++ back).countP p + if p call then 1 else 0 := by
  rw [List.countP_append, List.countP_append, List.countP_cons]
  omega

theorem sendMessage_kind {s next : System Q} {index : ℕ} {drop : Bool}
    (sent : s.sendMessage index drop = some next) : StepKind s (.proceed index drop) next := by
  unfold sendMessage at sent
  cases found : s.calls[index]? with
  | none => simp only [found, reduceCtorEq] at sent
  | some call =>
      obtain ⟨front, back, split, erased, replaced⟩ := exists_split found
      cases stage : call.stage with
      | entered =>
          simp only [found, stage, Option.some.injEq, replaced] at sent
          subst sent
          exact .count index drop front back call split stage
      | counted =>
          cases drop with
          | true =>
              simp only [found, stage, ↓reduceIte, Option.some.injEq, replaced] at sent
              subst sent
              exact .drop index front back call split stage
          | false =>
              simp only [found, stage, Bool.false_eq_true, ↓reduceIte, Option.some.injEq,
                replaced] at sent
              subst sent
              exact .queue index front back call split stage
      | dropped =>
          simp only [found, stage, Option.some.injEq, erased] at sent
          subst sent
          exact .finish index drop front back call _ split (Or.inl ⟨stage, rfl⟩) rfl
      | queued =>
          simp only [found, stage, Option.some.injEq, erased] at sent
          subst sent
          exact .finish index drop front back call _ split (Or.inr ⟨stage, rfl⟩) rfl

theorem dispatchLoop_kind (s : System Q) : StepKind s .dispatch s.dispatchLoop := by
  unfold dispatchLoop
  cases point : s.dispatcher with
  | iteration =>
      by_cases due : s.agingTimer + 1 ≥ Dispatch.agingPeriod
      · simp only [if_pos due]
        exact .age point due
      · simp only [if_neg due]
        exact .advance point (not_le.mp due)
  | pick =>
      cases picked : s.scheduler.getNextMessage with
      | none => exact .idle point picked
      | some result => exact .pick result.1 result.2 point picked
  | deliver msg =>
      by_cases registered : msg.receiverID ∈ s.registry
      · have target : s.getProcess msg.receiverID = some (s.processes msg.receiverID) :=
          if_pos registered
        rcases (s.processes msg.receiverID).queue.enqueue_cases msg with ⟨full, rejected⟩ |
          ⟨room, queue, accepted, contents, ownerID, -⟩
        · simp only [target, rejected, Bool.false_eq_true, ↓reduceIte]
          exact .reject msg _ point registered full (by decide : Logger.Uncounted .queueFull)
        · simp only [target, accepted, ↓reduceIte]
          exact .accept msg queue point registered room contents ownerID
      · have unknown : s.getProcess msg.receiverID = none := if_neg registered
        simp only [unknown]
        exact .discard msg point registered
  | countDelivered msg => exact .countDelivered msg point
  | logDelivered msg => exact .logDelivered msg _ point rfl rfl
  | logFull msg => exact .note msg _ (Or.inl point) (by decide : Logger.Uncounted .queueFull)
  | logUnknown msg => exact .note msg _ (Or.inr point) (by decide : Logger.Uncounted .general)

theorem step_kind {s next : System Q} {act : Action} (taken : s.step act = some next) :
    StepKind s act next := by
  cases act with
  | generateMessageID =>
      obtain rfl := Option.some.inj taken
      exact .generate
  | enter msg =>
      obtain rfl := Option.some.inj taken
      exact .enter msg
  | start id =>
      simp only [step] at taken
      split at taken
      · rename_i startable
        obtain rfl := Option.some.inj taken
        refine .control _ id _ Action.noConfusion (Process.quiet_move ?_ rfl) ?_
        · rw [Process.owed, startable.2]
        · rw [startable.2]
          decide
      · cases taken
  | stop id =>
      simp only [step] at taken
      split at taken
      · rename_i sends
        obtain rfl := Option.some.inj taken
        refine .control _ id _ Action.noConfusion (Process.quiet_move ?_ rfl) ?_
        · rw [Process.owed, sends]
        · rw [sends]
          decide
      · cases taken
  | send id targetID msgPrio timestamp =>
      simp only [step] at taken
      split at taken
      · rename_i able
        obtain rfl := Option.some.inj taken
        refine .send id targetID msgPrio timestamp _ (Process.quiet_move ?_ rfl) ?_ rfl able.2.2.2
        · rw [Process.owed, able.1]
        · rw [able.1]
          decide
      · cases taken
  | proceed index drop => exact sendMessage_kind taken
  | run id =>
      obtain ⟨⟨process, records⟩, ran, rfl⟩ := Option.map_eq_some_iff.mp taken
      exact .run id process records ran
  | dispatch =>
      obtain rfl := Option.some.inj taken
      exact dispatchLoop_kind s

/-- A process sends at the beginning of its loop, to another ID of those it counted. -/
theorem exists_send_iff {s : System Q} {id targetID : ℤ} {msgPrio : Priority}
    {timestamp : String} :
    (∃ next, s.step (.send id targetID msgPrio timestamp) = some next) ↔
      (s.processes id).point = .send ∧ 1 ≤ targetID ∧ targetID ≤ s.registry.card ∧
        targetID ≠ id := by
  simp only [step, Option.ite_none_right_eq_some, exists_and_left, Option.some.injEq,
    exists_eq', and_true]

theorem send_step {s next : System Q} {id targetID : ℤ} {msgPrio : Priority}
    {timestamp : String} (taken : s.step (.send id targetID msgPrio timestamp) = some next) :
    next.sent = s.sent ++ [⟨s.sent.length,
      (s.processes id).buildMessage targetID msgPrio s.nextMessageID timestamp⟩] := by
  rw [step, Option.ite_none_right_eq_some, Option.some.injEq] at taken
  obtain ⟨-, rfl⟩ := taken
  rfl

theorem registry_step {s next : System Q} {act : Action} (kind : StepKind s act next) :
    next.registry = s.registry := by
  cases kind <;> rfl

theorem registry_run {s last : System Q} {acts : List Action}
    (run : Transition.exec System.step s acts = some last) : last.registry = s.registry :=
  Transition.exec_invariant (fun later : System Q => later.registry = s.registry)
    (fun _ _ _ same taken => (registry_step (step_kind taken)).trans same) rfl run

/-- A step writes to the log, or leaves it. -/
theorem logger_step {s next : System Q} {act : Action} (kind : StepKind s act next) :
    ∃ records, next.logger = s.logger.logAll records := by
  cases kind with
  | finish index drop front back call record => exact ⟨[record], rfl⟩
  | run id process records => exact ⟨records, rfl⟩
  | age => exact ⟨_, rfl⟩
  | reject msg record => exact ⟨[record], rfl⟩
  | logDelivered msg record => exact ⟨[record], rfl⟩
  | note msg record => exact ⟨[record], rfl⟩
  | _ => exact ⟨[], rfl⟩

theorem recorded_run {registry : Finset ℤ} {acts : List Action} {s : System Q}
    (run : Transition.exec System.step (.initial registry) acts = some s) : s.logger.Recorded := by
  refine Transition.exec_invariant (fun s : System Q => s.logger.Recorded)
    (fun s act next recorded taken => ?_) Logger.Recorded.initial run
  obtain ⟨records, written⟩ := logger_step (step_kind taken)
  rw [written]
  exact recorded.logAll records

/-- What a step can do to the scheduler and to the message in the dispatcher's hand. -/
theorem scheduler_step {s next : System Q} {act : Action} (kind : StepKind s act next) :
    (next.scheduler = s.scheduler ∧
        ∀ msg, next.dispatcher = .deliver msg → s.dispatcher = .deliver msg) ∨
      (∃ call ∈ s.calls, call.stage = .counted ∧
        next.scheduler = s.scheduler.addMessage call.msg ∧ next.dispatcher = s.dispatcher) ∨
      (next.scheduler = s.scheduler.applyAging ∧ ∀ msg, next.dispatcher ≠ .deliver msg) ∨
      ∃ msg, s.dispatcher = .pick ∧ s.scheduler.getNextMessage = some (msg, next.scheduler) ∧
        next.dispatcher = .deliver msg := by
  cases kind with
  | queue index front back call split stage =>
      refine Or.inr (Or.inl ⟨call, ?_, stage, rfl, rfl⟩)
      rw [split]
      exact List.mem_append_right _ List.mem_cons_self
  | age => exact Or.inr (Or.inr (Or.inl ⟨rfl, fun _ => nofun⟩))
  | pick msg rest point picked => exact Or.inr (Or.inr (Or.inr ⟨msg, point, picked, rfl⟩))
  | advance => exact Or.inl ⟨rfl, fun _ hand => DispatcherPoint.noConfusion hand⟩
  | idle => exact Or.inl ⟨rfl, fun _ hand => DispatcherPoint.noConfusion hand⟩
  | accept => exact Or.inl ⟨rfl, fun _ hand => DispatcherPoint.noConfusion hand⟩
  | reject => exact Or.inl ⟨rfl, fun _ hand => DispatcherPoint.noConfusion hand⟩
  | discard => exact Or.inl ⟨rfl, fun _ hand => DispatcherPoint.noConfusion hand⟩
  | countDelivered => exact Or.inl ⟨rfl, fun _ hand => DispatcherPoint.noConfusion hand⟩
  | logDelivered => exact Or.inl ⟨rfl, fun _ hand => DispatcherPoint.noConfusion hand⟩
  | note => exact Or.inl ⟨rfl, fun _ hand => DispatcherPoint.noConfusion hand⟩
  | _ => exact Or.inl ⟨rfl, fun _ => id⟩

/-- What a thread inside `sendMessage` holds it held before, or it just entered. -/
theorem calls_step {s next : System Q} {act : Action} (kind : StepKind s act next)
    {call : SendCall} (member : call ∈ next.calls) :
    (∃ earlier ∈ s.calls, call.msg = earlier.msg) ∨
      ∃ msg, call.msg = msg.stamp s.sent.length ∧ next.sent = s.sent ++ [⟨s.sent.length, msg⟩] ∧
        (act = .enter msg ∨ msg.agingCounter = 0) := by
  have advanced {front back : List SendCall} {before : SendCall}
      (split : s.calls = front ++ before :: back) (stage : SendStage)
      (inside : call ∈ front ++ { before with stage := stage } :: back) :
      ∃ earlier ∈ s.calls, call.msg = earlier.msg := by
    rw [split]
    rcases List.mem_cons.mp (List.perm_middle.mem_iff.mp inside) with rfl | elsewhere
    · exact ⟨before, List.mem_append_right _ List.mem_cons_self, rfl⟩
    · exact ⟨call, List.perm_middle.mem_iff.mpr (List.mem_cons_of_mem _ elsewhere), rfl⟩
  cases kind with
  | enter msg =>
      rcases List.mem_append.mp member with earlier | last
      · exact Or.inl ⟨call, earlier, rfl⟩
      · rw [List.mem_singleton.mp last]
        exact Or.inr ⟨msg, rfl, rfl, Or.inl rfl⟩
  | send id targetID msgPrio timestamp process =>
      rcases List.mem_append.mp member with earlier | last
      · exact Or.inl ⟨call, earlier, rfl⟩
      · rw [List.mem_singleton.mp last]
        exact Or.inr ⟨_, rfl, rfl, Or.inr rfl⟩
  | count index drop front back before split => exact Or.inl (advanced split .counted member)
  | drop index front back before split => exact Or.inl (advanced split .dropped member)
  | queue index front back before split => exact Or.inl (advanced split .queued member)
  | finish index drop front back before record split =>
      refine Or.inl ⟨call, ?_, rfl⟩
      rw [split]
      exact (List.Sublist.append_left (List.sublist_cons_self before back) front).subset member
  | _ => exact Or.inl ⟨call, member, rfl⟩

/-- The step stores this message in the inbox of its receiver. -/
structure Stores (s : System Q) (act : Action) (msg : Message Ticket) : Prop where
  act : act = .dispatch
  hand : s.dispatcher = .deliver msg
  registered : msg.receiverID ∈ s.registry
  room : (s.processes msg.receiverID).queue.size < Config.maxQueueSize

instance (s : System Q) (act : Action) (msg : Message Ticket) : Decidable (s.Stores act msg) :=
  decidable_of_iff (act = .dispatch ∧ s.dispatcher = .deliver msg ∧ msg.receiverID ∈ s.registry ∧
      (s.processes msg.receiverID).queue.size < Config.maxQueueSize)
    ⟨fun ⟨act, hand, registered, room⟩ => ⟨act, hand, registered, room⟩,
      fun stores => ⟨stores.act, stores.hand, stores.registered, stores.room⟩⟩

/-- What a step can do to the inbox of one process and to what it received: nothing,
a step of the process itself, or a delivery to it. -/
theorem process_step {s next : System Q} {act : Action} (kind : StepKind s act next) (id : ℤ) :
    (next.processes id).queue = (s.processes id).queue ∧
        (next.processes id).received = (s.processes id).received ∨
      (∃ records, act = .run id ∧ (s.processes id).run = some (next.processes id, records)) ∨
      ∃ msg, s.Stores act msg ∧ msg.receiverID = id ∧
        (next.processes id).queue.contents = msg ::ₘ (s.processes id).queue.contents ∧
        (next.processes id).queue.ownerID = (s.processes id).queue.ownerID ∧
        (next.processes id).received = (s.processes id).received := by
  have set (before : System Q) (same : before.processes = s.processes) (other : ℤ)
      (process : Process Q) (queue : process.queue = (s.processes other).queue)
      (received : process.received = (s.processes other).received) :
      ((before.setProcess other process).processes id).queue = (s.processes id).queue ∧
        ((before.setProcess other process).processes id).received = (s.processes id).received := by
    by_cases here : id = other
    · subst here
      rw [setProcess_same]
      exact ⟨queue, received⟩
    · rw [setProcess_other _ _ here, same]
      exact ⟨rfl, rfl⟩
  cases kind with
  | control _ other process _ quiet =>
      exact Or.inl (set s rfl other process quiet.queue quiet.received)
  | send other _ _ _ process quiet =>
      exact Or.inl (set s.generateMessageID.2 rfl other process quiet.queue quiet.received)
  | finish index drop front back call record =>
      exact Or.inl (returnTo_keeps s.processes call.owner id)
  | run other process records ran =>
      by_cases here : id = other
      · subst here
        refine Or.inr (Or.inl ⟨records, rfl, ?_⟩)
        simp only [setProcess, Function.update_self]
        exact ran
      · left
        simp only [setProcess, Function.update_of_ne here, and_self]
  | accept msg queue point registered room contents ownerID =>
      by_cases here : id = msg.receiverID
      · subst here
        refine Or.inr (Or.inr ⟨msg, ⟨rfl, point, registered, room⟩, rfl, ?_⟩)
        simp only [setProcess, Function.update_self, and_true]
        exact ⟨contents, ownerID⟩
      · left
        simp only [setProcess, Function.update_of_ne here, and_self]
  | _ => exact Or.inl ⟨rfl, rfl⟩

/-- A message stored is in the inbox of its receiver. -/
theorem stores_step {s next : System Q} {act : Action} {msg : Message Ticket}
    (stores : s.Stores act msg) (kind : StepKind s act next) :
    (next.processes msg.receiverID).queue.contents =
      msg ::ₘ (s.processes msg.receiverID).queue.contents := by
  obtain ⟨rfl, hand, registered, room⟩ := stores
  cases kind with
  | control _ _ _ different => exact absurd rfl different
  | age point => cases hand.symm.trans point
  | advance point => cases hand.symm.trans point
  | pick _ _ point => cases hand.symm.trans point
  | idle point => cases hand.symm.trans point
  | accept other queue point _ _ contents =>
      obtain rfl := DispatcherPoint.deliver.inj (hand.symm.trans point)
      simp only [setProcess, Function.update_self]
      exact contents
  | reject other _ point _ full =>
      obtain rfl := DispatcherPoint.deliver.inj (hand.symm.trans point)
      exact absurd room (not_lt.mpr full)
  | discard other point unregistered =>
      obtain rfl := DispatcherPoint.deliver.inj (hand.symm.trans point)
      exact absurd registered unregistered
  | countDelivered _ point => cases hand.symm.trans point
  | logDelivered _ _ point => cases hand.symm.trans point
  | note _ _ point =>
      rcases point with point | point
      · cases hand.symm.trans point
      · cases hand.symm.trans point

end System

end MessagePassing
