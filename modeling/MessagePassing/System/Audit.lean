import MessagePassing.System.Causality
import MessagePassing.System.Report
import Mathlib.Data.Multiset.Bind

/-! # What the log tells of a message

The records about a message, the notices of its boosts aside, are written by different
threads: the one that sends it, the dispatcher, the inbox that is full and the process that
receives it. In any interleaving the records written and those a thread is still to write
are together the ones that belong to the place the message is in (`logAudited`).
-/

namespace MessagePassing

open Transition

variable {Q : PriorityQueue (Message Ticket) MessageComparator}

/-- A record, by its event and the message it is about. -/
abbrev Note := LogEvent × Ticket

/-- The records about a message in this place. A process reports what it takes out of its
inbox only under a valid ID. -/
def Place.events (msg : Message Ticket) : Place → Multiset LogEvent
  | .sender => 0
  | .dropped => {.msgDropped}
  | .scheduler | .dispatcher => {.msgSent}
  | .inbox _ => {.msgSent, .msgReceived}
  | .received _ =>
      if msg.messageID ≠ 0 then {.msgSent, .msgReceived, .general} else {.msgSent, .msgReceived}
  | .rejected => {.msgSent, .queueFull, .queueFull}
  | .discarded => {.msgSent, .general}

def eventNotes (ticket : Ticket) (events : Multiset LogEvent) : Multiset Note :=
  events.map fun event => (event, ticket)

/-- The events of the records about one message. -/
def eventsAbout (ticket : Ticket) (notes : Multiset Note) : Multiset LogEvent :=
  (notes.filter fun note => note.2 = ticket).map Prod.fst

/-- The records about messages at their places. -/
def notes (located : Multiset Located) : Multiset Note :=
  located.bind fun entry => eventNotes entry.2.ticket (entry.1.events entry.2)

def LogRecord.note (record : LogRecord) : Option Note :=
  if record.event = .schedulerEvent then none
  else record.ticket.map fun ticket => (record.event, ticket)

/-- The records of the log, the notices of boosts aside. -/
def Logger.notes (records : List LogRecord) : Multiset Note :=
  (records.filterMap LogRecord.note : List Note)

/-- The record a thread inside `sendMessage` is to write about a message that is dropped or
queued. -/
def SendCall.owes (call : SendCall) : Multiset Note :=
  match call.stage with
  | .entered | .counted => 0
  | .dropped => {(.msgDropped, call.msg.ticket)}
  | .queued => {(.msgSent, call.msg.ticket)}

def DispatcherPoint.owes : DispatcherPoint → Multiset Note
  | .countDelivered msg | .logDelivered msg => {(.msgReceived, msg.ticket)}
  | .logFull msg => {(.queueFull, msg.ticket)}
  | .logUnknown msg => {(.general, msg.ticket)}
  | _ => 0

def Process.owes (process : Process Q) : Multiset Note :=
  match process.point with
  | .unblock out | .check out => if out.messageID ≠ 0 then {(.general, out.ticket)} else 0
  | .report out => {(.general, out.ticket)}
  | _ => 0

namespace System

/-- The records the threads are to write. -/
def owes (s : System Q) : Multiset Note :=
  (s.calls.map SendCall.owes).sum + s.dispatcher.owes + ∑ id ∈ s.registry, (s.processes id).owes

end System

theorem notes_add (first second : Multiset Located) :
    notes (first + second) = notes first + notes second := Multiset.add_bind ..

theorem notes_cons (entry : Located) (located : Multiset Located) :
    notes (entry ::ₘ located) =
      eventNotes entry.2.ticket (entry.1.events entry.2) + notes located :=
  Multiset.cons_bind ..

theorem notes_zero : notes 0 = 0 := rfl

theorem notes_singleton (entry : Located) :
    notes {entry} = eventNotes entry.2.ticket (entry.1.events entry.2) :=
  Multiset.singleton_bind ..

theorem notes_sum (registry : Finset ℤ) (held : ℤ → Multiset Located) :
    notes (∑ id ∈ registry, held id) = ∑ id ∈ registry, notes (held id) := by
  induction registry using Finset.induction_on with
  | empty => rfl
  | insert id registry absent ih =>
      rw [Finset.sum_insert absent, Finset.sum_insert absent, notes_add, ih]

theorem notes_entries_singleton (place : Place) (msg : Message Ticket) :
    notes (entries place [msg]) = eventNotes msg.ticket (place.events msg) :=
  notes_singleton _

/-- A message that is boosted or skipped keeps its records. -/
theorem notes_entries_map (place : Place) {f : Message Ticket → Message Ticket}
    (keeps : ∀ msg, (f msg).ticket = msg.ticket ∧ msg.Carries (f msg))
    (messages : List (Message Ticket)) :
    notes (entries place (messages.map f)) = notes (entries place messages) := by
  have same (msg : Message Ticket) : eventNotes (f msg).ticket (place.events (f msg)) =
      eventNotes msg.ticket (place.events msg) := by
    obtain ⟨ticket, carries⟩ := keeps msg
    rw [ticket]
    cases place <;> simp only [Place.events, carries.messageID]
  induction messages with
  | nil => rfl
  | cons msg rest ih =>
      change notes ((place, f msg) ::ₘ entries place (rest.map f)) =
        notes ((place, msg) ::ₘ entries place rest)
      rw [notes_cons, notes_cons, ih, same]

/-- A thread inside `sendMessage` holds messages without a record. -/
theorem notes_calls (calls : List SendCall) : notes (calls.map SendCall.held).sum = 0 := by
  induction calls with
  | nil => rfl
  | cons call rest ih =>
      rw [List.map_cons, List.sum_cons, notes_add, ih, add_zero, SendCall.held]
      cases call.stage <;> rfl

theorem mem_notes {note : Note} {located : Multiset Located} (member : note ∈ notes located) :
    ∃ entry ∈ located, note.2 = entry.2.ticket := by
  obtain ⟨entry, here, noted⟩ := Multiset.mem_bind.mp member
  obtain ⟨event, -, rfl⟩ := Multiset.mem_map.mp noted
  exact ⟨entry, here, rfl⟩

theorem eventsAbout_add (ticket : Ticket) (first second : Multiset Note) :
    eventsAbout ticket (first + second) = eventsAbout ticket first + eventsAbout ticket second := by
  rw [eventsAbout, Multiset.filter_add, Multiset.map_add]
  rfl

theorem eventsAbout_eventNotes (ticket : Ticket) (events : Multiset LogEvent) :
    eventsAbout ticket (eventNotes ticket events) = events := by
  have all : (eventNotes ticket events).filter (fun note => note.2 = ticket) =
      eventNotes ticket events := by
    apply Multiset.filter_eq_self.mpr
    intro note member
    obtain ⟨event, -, rfl⟩ := Multiset.mem_map.mp member
    rfl
  rw [eventsAbout, all, eventNotes, Multiset.map_map]
  exact Multiset.map_id events

theorem eventsAbout_eq_zero {ticket : Ticket} {notes : Multiset Note}
    (others : ∀ note ∈ notes, note.2 ≠ ticket) : eventsAbout ticket notes = 0 := by
  rw [eventsAbout, Multiset.filter_eq_nil.mpr others]
  rfl

namespace Logger

theorem notes_append (first second : List LogRecord) :
    notes (first ++ second) = notes first + notes second := by
  rw [notes, List.filterMap_append]
  rfl

theorem notes_singleton {record : LogRecord} {note : Note} (noted : record.note = some note) :
    notes [record] = {note} := by
  rw [notes, List.filterMap_cons_some noted]
  rfl

theorem notes_eq_zero {records : List LogRecord} (silent : ∀ record ∈ records, record.note = none) :
    notes records = 0 := by
  rw [notes, List.filterMap_eq_nil_iff.mpr silent]
  rfl

end Logger

/-- A record with a note is about a message. -/
theorem LogRecord.ticket_of_note {record : LogRecord} {about : Note}
    (noted : record.note = some about) : record.ticket = some about.2 := by
  unfold note at noted
  split at noted
  · cases noted
  · obtain ⟨ticket, found, rfl⟩ := Option.map_eq_some_iff.mp noted
    exact found

theorem LogRecord.note_eq {record : LogRecord} {event : LogEvent} {ticket : Ticket}
    (same : record.event = event) (about : record.ticket = some ticket)
    (counted : event ≠ .schedulerEvent) : record.note = some (event, ticket) := by
  rw [note, same, if_neg counted, about]
  rfl

/-- What a process writes about the messages it takes, now and later, is what receiving them
calls for. -/
theorem Process.Turn.notes_eq {process next : Process Q} {records : List LogRecord}
    (turn : process.Turn next records) (id : ℤ) :
    Logger.notes records + next.owes + notes (process.held id) =
      process.owes + notes (next.held id) := by
  have silent (nothing : Logger.notes records = 0) (owes : next.owes = process.owes)
      (held : next.held id = process.held id) :
      Logger.notes records + next.owes + notes (process.held id) =
        process.owes + notes (next.held id) := by
    rw [nothing, owes, held, zero_add]
  have takes {out : Message Ticket} {queue : MessageQueue Q}
      (taken : process.queue.Takes out queue) (nothing : Logger.notes records = 0)
      (before : process.owes = 0)
      (owes : next.owes = if out.messageID ≠ 0 then {(.general, out.ticket)} else 0)
      (left : next.queue = queue) (received : next.received = process.received ++ [out]) :
      Logger.notes records + next.owes + notes (process.held id) =
        process.owes + notes (next.held id) := by
    have reported : eventNotes out.ticket ((Place.received id).events out) =
        next.owes + eventNotes out.ticket ((Place.inbox id).events out) := by
      rw [owes, Place.events, Place.events]
      split
      · have last : ({.msgSent, .msgReceived, .general} : Multiset LogEvent) =
            {.general} + {.msgSent, .msgReceived} := by
          decide
        rw [last, eventNotes, Multiset.map_add]
        rfl
      · exact (zero_add _).symm
    rw [nothing, before, Process.held, Process.held, left, received, taken.contents,
      Multiset.map_cons, entries_append, notes_add, notes_cons, notes_add, notes_add,
      notes_entries_singleton, reported]
    abel
  cases turn with
  | countSent here =>
      apply silent rfl _ rfl
      rw [owes, owes, here]
  | take out queue here taken =>
      apply takes taken rfl _ rfl rfl rfl
      rw [owes, here]
  | miss here =>
      apply silent rfl _ rfl
      rw [owes, owes, here]
  | block here =>
      apply silent rfl _ rfl
      rw [owes, owes, here]
  | retake out queue here taken =>
      apply takes taken rfl _ rfl rfl rfl
      rw [owes, here]
  | giveUp here =>
      apply silent rfl _ rfl
      rw [owes, owes, here]
      rfl
  | unblock out here =>
      apply silent rfl _ rfl
      rw [owes, owes, here]
  | count out here valid =>
      apply silent rfl _ rfl
      rw [owes, owes, here]
      exact (if_pos valid).symm
  | ignore out here none =>
      apply silent rfl _ rfl
      rw [owes, owes, here]
      exact (if_neg (not_not.mpr none)).symm
  | report out here =>
      rw [Logger.notes_singleton (LogRecord.note_eq rfl rfl LogEvent.noConfusion)]
      change _ + 0 + notes (process.held id) = _ + notes (process.held id)
      rw [owes, here, add_zero]

namespace System

variable {s next : System Q} {act : Action}

/-- Only its own steps change what a process is to write. -/
theorem processOwes_step (threads : s.Threads) (taken : s.step act = some next) {id : ℤ}
    (other : act ≠ .run id) : (next.processes id).owes = (s.processes id).owes := by
  have moved := processStep taken id
  generalize next.processes id = process at moved
  cases moved with
  | keep => rfl
  | deliver => rfl
  | start same point => rw [Process.owes, Process.owes, point]
  | stop same point => rw [Process.owes, Process.owes, point]
  | send targetID msgPrio timestamp same point => rw [Process.owes, Process.owes, point]
  | finish index drop call same member owner =>
      rw [Process.owes, Process.owes,
        threads.sending id (List.mem_filterMap.mpr ⟨call, member, owner⟩)]
  | run process records same => exact absurd same other

/-- A full inbox and the dispatcher write a record each about a message rejected. -/
theorem full_logged {msg : Message Ticket} (taken : s.step .dispatch = some next)
    (point : s.dispatcher = .deliver msg) (registered : msg.receiverID ∈ s.registry)
    (full : Config.maxQueueSize ≤ (s.processes msg.receiverID).queue.size) :
    ∃ record, next.logger.records = s.logger.records ++ [record] ∧
      record.note = some (.queueFull, msg.ticket) := by
  obtain rfl := Option.some.inj taken
  have target : s.getProcess msg.receiverID = some (s.processes msg.receiverID) :=
    if_pos registered
  rcases (s.processes msg.receiverID).queue.enqueue_cases msg with ⟨-, rejected⟩ | ⟨room, -⟩
  · unfold dispatchLoop
    simp only [point, target, rejected, Bool.false_eq_true, ↓reduceIte]
    exact ⟨_, rfl, rfl⟩
  · exact absurd full (not_le.mpr room)

theorem hand_logged {msg : Message Ticket} (taken : s.step .dispatch = some next)
    (point : s.dispatcher = .logFull msg ∨ s.dispatcher = .logUnknown msg) :
    ∃ record note, next.logger.records = s.logger.records ++ [record] ∧
      record.note = some note ∧ s.dispatcher.owes = {note} := by
  obtain rfl := Option.some.inj taken
  unfold dispatchLoop
  rcases point with point | point
  · rw [point]
    exact ⟨_, _, rfl, rfl, rfl⟩
  · rw [point]
    exact ⟨_, _, rfl, rfl, rfl⟩

theorem notes_located (s : System Q) :
    notes s.located = notes (entries .dropped s.dropped) +
      notes (entries .scheduler s.scheduler.pendingMessages) + notes s.dispatcher.held +
      ∑ id ∈ s.registry, notes ((s.processes id).held id) + notes (entries .rejected s.rejected) +
      notes (entries .discarded s.discarded) := by
  rw [located, notes_add, notes_add, notes_add, notes_add, notes_add, notes_add, notes_calls,
    zero_add, notes_sum]

theorem owes_calls (front back : List SendCall) (call : SendCall) :
    ((front ++ call :: back).map SendCall.owes).sum =
      call.owes + ((front ++ back).map SendCall.owes).sum := by
  rw [List.map_append, List.map_cons, List.sum_append, List.sum_cons, List.map_append,
    List.sum_append]
  abel

/-- A process that takes its next step is registered. -/
theorem runOwes_step {id : ℤ} (unstarted : s.Unstarted) (taken : s.step (.run id) = some next) :
    ∃ more, next.logger.records = s.logger.records ++ more ∧
      Logger.notes more + next.owes + notes s.located = s.owes + notes next.located := by
  obtain ⟨⟨process, records⟩, ran, rfl⟩ := Option.map_eq_some_iff.mp taken
  have turn := Process.turn_of_run ran
  have registered : id ∈ s.registry := by
    by_contra absent
    exact turn.point_ne.1 (unstarted id absent)
  refine ⟨records, Logger.logAll_records _ _, ?_⟩
  have owed := sum_update registered (fun _ process => process.owes) s.processes process
  have held := sum_update registered (fun i process => notes (process.held i)) s.processes process
  simp only [notes_located, owes, setProcess]
  rw [owed, held, ← Finset.add_sum_erase s.registry (fun i => (s.processes i).owes) registered,
    ← Finset.add_sum_erase s.registry (fun i => notes ((s.processes i).held i)) registered]
  have balanced := congrArg (· + ((s.calls.map SendCall.owes).sum + s.dispatcher.owes +
    ∑ i ∈ s.registry.erase id, (s.processes i).owes + notes (entries .dropped s.dropped) +
    notes (entries .scheduler s.scheduler.pendingMessages) + notes s.dispatcher.held +
    ∑ i ∈ s.registry.erase id, notes ((s.processes i).held i) +
    notes (entries .rejected s.rejected) + notes (entries .discarded s.discarded)))
    (turn.notes_eq id)
  convert balanced using 1
  · abel
  · abel

/-- A step writes what was owed, or owes what the new place of a message calls for. -/
theorem owes_step (threads : s.Threads) (unstarted : s.Unstarted)
    (taken : s.step act = some next) :
    ∃ more, next.logger.records = s.logger.records ++ more ∧
      Logger.notes more + next.owes + notes s.located = s.owes + notes next.located := by
  by_cases runs : ∃ id, act = .run id
  · obtain ⟨id, rfl⟩ := runs
    exact runOwes_step unstarted taken
  have owed : ∑ id ∈ next.registry, (next.processes id).owes =
      ∑ id ∈ s.registry, (s.processes id).owes := by
    rw [registry_step (step_kind taken)]
    exact Finset.sum_congr rfl fun id _ =>
      processOwes_step threads taken fun same => runs ⟨id, same⟩
  cases step_kind taken with
  | generate => exact ⟨[], (List.append_nil _).symm, congrArg (· + _) (zero_add _)⟩
  | enter msg =>
      refine ⟨[], (List.append_nil _).symm, ?_⟩
      rw [located_enterSend, notes_cons, owes, owes, enterSend, List.map_append, List.sum_append]
      change 0 + (_ + 0 + _ + _) + _ = _ + (0 + _)
      abel
  | control _ id process other quiet =>
      refine ⟨[], (List.append_nil _).symm, ?_⟩
      rw [located_setProcess (quiet.held_eq id), owes, owes, owed]
      exact congrArg (· + _) (zero_add _)
  | send id targetID msgPrio timestamp process quiet =>
      refine ⟨[], (List.append_nil _).symm, ?_⟩
      rw [located_enterSend, notes_cons,
        located_setProcess (s := s.generateMessageID.2) (quiet.held_eq id), owes, owes, owed,
        enterSend, List.map_append, List.sum_append]
      change 0 + ((s.calls.map SendCall.owes).sum + 0 + s.dispatcher.owes + _) +
        notes s.located = _ + (0 + notes s.located)
      abel
  | count index drop front back call split stage =>
      refine ⟨[], (List.append_nil _).symm, ?_⟩
      have entered : call.owes = 0 := by rw [SendCall.owes, stage]
      rw [notes_located, notes_located, owes, owes, split, owes_calls, owes_calls, entered]
      exact congrArg (· + _) (zero_add _)
  | drop index front back call split stage =>
      refine ⟨[], (List.append_nil _).symm, ?_⟩
      have counted : call.owes = 0 := by rw [SendCall.owes, stage]
      have owing : SendCall.owes { call with stage := .dropped } =
          eventNotes call.msg.ticket (Place.dropped.events call.msg) := rfl
      simp only [notes_located, owes, split, owes_calls, counted, owing, entries_append, notes_add,
        notes_entries_singleton]
      change 0 + _ + _ = _
      abel
  | queue index front back call split stage =>
      refine ⟨[], (List.append_nil _).symm, ?_⟩
      have counted : call.owes = 0 := by rw [SendCall.owes, stage]
      have owing : SendCall.owes { call with stage := .queued } =
          eventNotes call.msg.ticket (Place.scheduler.events call.msg) := rfl
      simp only [notes_located, owes, split, owes_calls, counted, owing,
        Scheduler.addMessage_pendingMessages, entries_append, notes_add, notes_entries_singleton]
      change 0 + _ + _ = _
      abel
  | finish index drop front back call record split stages about =>
      have written : Logger.notes [record] = call.owes := by
        rw [SendCall.owes]
        rcases stages with ⟨stage, event⟩ | ⟨stage, event⟩
        · rw [stage]
          exact Logger.notes_singleton (LogRecord.note_eq event about LogEvent.noConfusion)
        · rw [stage]
          exact Logger.notes_singleton (LogRecord.note_eq event about LogEvent.noConfusion)
      refine ⟨[record], rfl, ?_⟩
      rw [notes_located, notes_located, owes, owes, owed, written, split, owes_calls]
      simp only [returnTo_held]
      abel
  | run id process records ran => exact absurd ⟨id, rfl⟩ runs
  | age point due =>
      refine ⟨agingRecords s.scheduler, Logger.logAll_records _ _, ?_⟩
      have silent : Logger.notes (agingRecords s.scheduler) = 0 := by
        apply Logger.notes_eq_zero
        intro record member
        obtain ⟨msg, -, boosted⟩ := List.mem_filterMap.mp member
        obtain ⟨text, -, rfl⟩ := Option.map_eq_some_iff.mp boosted
        rfl
      have aged : notes (entries .scheduler s.scheduler.applyAging.pendingMessages) =
          notes (entries .scheduler s.scheduler.pendingMessages) :=
        notes_entries_map _ (fun msg => ⟨msg.age_ticket, msg.carries_age⟩) _
      simp only [notes_located, owes, silent, aged, point]
      exact congrArg (· + _) (zero_add _)
  | advance point early =>
      refine ⟨[], (List.append_nil _).symm, ?_⟩
      simp only [notes_located, owes, point]
      exact congrArg (· + _) (zero_add _)
  | pick msg rest point picked =>
      refine ⟨[], (List.append_nil _).symm, ?_⟩
      obtain ⟨front, back, split, remaining, -⟩ := Scheduler.getNextMessage_eq_some picked
      have skipped : notes (entries .scheduler rest.pendingMessages) =
          notes (entries .scheduler (front ++ back)) := by
        rw [remaining]
        exact notes_entries_map _ (fun other => ⟨other.skip_ticket, other.carries_skip⟩) _
      have given : notes {(Place.dispatcher, msg)} = notes {(Place.scheduler, msg)} := rfl
      simp only [notes_located, owes, skipped, given, point, split, entries_middle, notes_add,
        DispatcherPoint.owes, DispatcherPoint.held, notes_zero]
      change 0 + _ + _ = _
      abel
  | idle point empty =>
      refine ⟨[], (List.append_nil _).symm, ?_⟩
      simp only [notes_located, owes, point]
      exact congrArg (· + _) (zero_add _)
  | accept msg queue point registered room contents ownerID =>
      refine ⟨[], (List.append_nil _).symm, ?_⟩
      have stored : Process.held msg.receiverID { s.processes msg.receiverID with queue := queue } =
          {(Place.inbox msg.receiverID, msg)} +
            (s.processes msg.receiverID).held msg.receiverID := by
        rw [Process.held, Process.held, contents, Multiset.map_cons, Multiset.cons_add,
          Multiset.singleton_add]
      have sum := sum_update registered (fun i process => notes (process.held i)) s.processes
        { s.processes msg.receiverID with queue := queue }
      rw [stored, notes_add, add_assoc, Finset.add_sum_erase s.registry
        (fun i => notes ((s.processes i).held i)) registered] at sum
      have given : notes {(Place.inbox msg.receiverID, msg)} =
          notes {(Place.dispatcher, msg)} + {(.msgReceived, msg.ticket)} := rfl
      simp only [setProcess] at owed
      simp only [notes_located, owes, setProcess, owed, sum, given, point, DispatcherPoint.owes,
        DispatcherPoint.held, notes_zero]
      change 0 + _ + _ = _
      abel
  | reject msg record point registered full uncounted =>
      obtain ⟨written, more, noted⟩ := full_logged taken point registered full
      refine ⟨[written], more, ?_⟩
      have given : eventNotes msg.ticket (Place.rejected.events msg) =
          notes {(Place.dispatcher, msg)} + {(.queueFull, msg.ticket)} +
            {(.queueFull, msg.ticket)} := rfl
      simp only [Logger.notes_singleton noted, notes_located, owes, point, entries_append,
        notes_add, notes_entries_singleton, given, DispatcherPoint.owes, DispatcherPoint.held,
        notes_zero]
      abel
  | discard msg point unregistered =>
      refine ⟨[], (List.append_nil _).symm, ?_⟩
      have given : eventNotes msg.ticket (Place.discarded.events msg) =
          notes {(Place.dispatcher, msg)} + {(.general, msg.ticket)} := rfl
      simp only [notes_located, owes, point, entries_append, notes_add, notes_entries_singleton,
        given, DispatcherPoint.owes, DispatcherPoint.held, notes_zero]
      change 0 + _ + _ = _
      abel
  | countDelivered msg point =>
      refine ⟨[], (List.append_nil _).symm, ?_⟩
      simp only [notes_located, owes, point]
      exact congrArg (· + _) (zero_add _)
  | logDelivered msg record point event about =>
      refine ⟨[record], rfl, ?_⟩
      have noted := LogRecord.note_eq event about LogEvent.noConfusion
      simp only [notes_located, owes, point, Logger.notes_singleton noted, DispatcherPoint.owes,
        DispatcherPoint.held]
      abel
  | note msg record point uncounted =>
      obtain ⟨written, about, more, noted, owed⟩ := hand_logged taken point
      refine ⟨[written], more, ?_⟩
      have nothing : s.dispatcher.held = 0 := by
        rcases point with point | point <;> rw [point] <;> rfl
      have done : DispatcherPoint.iteration.held = 0 := rfl
      have silent : DispatcherPoint.iteration.owes = 0 := rfl
      simp only [Logger.notes_singleton noted, notes_located, owes, nothing, owed, done, silent]
      abel

/-- The records written and those to be written are those the places call for. -/
structure Audited (s : System Q) : Prop where
  threads : s.Threads
  unstarted : s.Unstarted
  balanced : Logger.notes s.logger.records + s.owes = notes s.located

theorem Audited.initial (registry : Finset ℤ) : (initial registry : System Q).Audited where
  threads := .initial registry
  unstarted _ _ := rfl
  balanced := by
    have nothing (id : ℤ) : notes ((Process.new id : Process Q).held id) = 0 := by
      rw [Process.held, Process.new, MessageQueue.contents_new]
      rfl
    have idle (id : ℤ) : (Process.new id : Process Q).owes = 0 := rfl
    rw [notes_located, owes]
    simp only [System.initial, nothing, idle, Finset.sum_const_zero]
    rfl

theorem Audited.step (audited : s.Audited) (taken : s.step act = some next) : next.Audited where
  threads := audited.threads.step taken
  unstarted := audited.unstarted.step audited.threads taken
  balanced := by
    obtain ⟨more, written, moved⟩ := owes_step audited.threads audited.unstarted taken
    rw [written, Logger.notes_append]
    apply add_right_cancel (b := notes s.located)
    calc Logger.notes s.logger.records + Logger.notes more + next.owes + notes s.located
        = Logger.notes s.logger.records + (Logger.notes more + next.owes + notes s.located) := by
          abel
      _ = Logger.notes s.logger.records + s.owes + notes next.located := by
          rw [moved]
          abel
      _ = notes next.located + notes s.located := by
          rw [audited.balanced, add_comm]

theorem audited_run {registry : Finset ℤ} {acts : List Action}
    (run : exec System.step (.initial registry) acts = some s) : s.Audited :=
  exec_invariant Audited (fun _ _ _ audited taken => audited.step taken) (.initial registry) run

/-- The records that belong to a message are those of its place. -/
theorem Conserved.eventsAbout_notes (conserved : s.Conserved) {place : Place}
    {msg : Message Ticket} (here : (place, msg) ∈ s.located) :
    eventsAbout msg.ticket (notes s.located) = place.events msg := by
  obtain ⟨rest, split⟩ := Multiset.exists_cons_of_mem here
  have others : ∀ note ∈ notes rest, note.2 ≠ msg.ticket := by
    intro note member same
    obtain ⟨entry, elsewhere, ticket⟩ := mem_notes member
    have distinct : (s.located.map fun entry => entry.2.ticket).Nodup := by
      rw [conserved.tickets]
      exact Multiset.coe_nodup.mpr conserved.nodup
    rw [split, Multiset.map_cons, Multiset.nodup_cons] at distinct
    exact distinct.1 (same ▸ ticket ▸ Multiset.mem_map_of_mem _ elsewhere)
  rw [split, notes_cons, eventsAbout_add, eventsAbout_eventNotes, eventsAbout_eq_zero others,
    add_zero]

theorem Resting.owes_eq_zero (resting : s.Resting) : s.owes = 0 := by
  rw [owes, resting.calls, resting.dispatcher]
  change 0 + 0 + _ = _
  rw [zero_add, zero_add]
  apply Finset.sum_eq_zero
  intro id registered
  rw [Process.owes, resting.processes id registered]

end System

/-- **What the log tells of a message.** In every reachable state, the records about a message
passed to `sendMessage`, those about its boosts aside, are together with those that the threads
are still to write exactly the ones of the place the message is in; the log has no record about
any other message; and at rest no thread has a record to write. -/
theorem logAudited {registry : Finset ℤ} {acts : List Action} {s : System Q}
    (run : exec System.step (.initial registry) acts = some s) :
    (∀ place msg, (place, msg) ∈ s.located →
      eventsAbout msg.ticket (Logger.notes s.logger.records) + eventsAbout msg.ticket s.owes =
        place.events msg) ∧
      (∀ note ∈ Logger.notes s.logger.records, note.2 ∈ s.sent) ∧
      (s.Resting → s.owes = 0) := by
  have conserved := System.conserved_run run
  have balanced := (System.audited_run run).balanced
  refine ⟨fun place msg here => ?_, fun note member => ?_, System.Resting.owes_eq_zero⟩
  · rw [← eventsAbout_add, balanced]
    exact conserved.eventsAbout_notes here
  · have called : note ∈ notes s.located := balanced ▸ Multiset.mem_add.mpr (Or.inl member)
    obtain ⟨entry, here, same⟩ := mem_notes called
    rw [same]
    exact conserved.mem_sent here

/-- The message is recorded as sent, and its delivery is not recorded yet. -/
theorem logAudited_storedUnrecorded :
    let acts := [.enter (.create 1 2 "" .low 1 ""), .proceed 0 false, .proceed 0 false,
      .proceed 0 false] ++ List.replicate 3 .dispatch
    ∃ s : System (PriorityQueue.scanned MessageComparator),
      exec System.step (.initial {1, 2}) acts = some s ∧
      s.logger.records.map LogRecord.event = [.msgSent] ∧
      (∃ msg, (Place.inbox 2, msg) ∈ s.located) ∧
      ∀ place msg, (place, msg) ∈ s.located →
        eventsAbout msg.ticket (Logger.notes s.logger.records) +
          eventsAbout msg.ticket s.owes = place.events msg := by
  intro acts
  have reached : (exec (System.step (Q := PriorityQueue.scanned MessageComparator))
      (.initial {1, 2}) acts).any (fun s => decide (
        s.logger.records.map LogRecord.event = [.msgSent] ∧
        Place.inbox 2 ∈ s.located.map Prod.fst)) = true := by
    decide +kernel
  obtain ⟨s, run, facts⟩ := (Option.any_eq_true _ _).mp reached
  obtain ⟨events, stored⟩ := of_decide_eq_true facts
  obtain ⟨⟨place, msg⟩, here, rfl⟩ := Multiset.mem_map.mp stored
  exact ⟨s, run, events, ⟨msg, here⟩, (logAudited run).1⟩

end MessagePassing
