import MessagePassing.Foundation.Precedence
import MessagePassing.System.Whereabouts

/-! # Deliveries in the log before their sendings

`sendMessage` hands its message to the scheduler first and writes its record afterwards,
so the dispatcher may deliver the message and record that in between. A message a process
has is recorded as sent as soon as the thread that sends it left `sendMessage`
(`System.SendTrace`), and is recorded as delivered at most once (`System.DeliveryTrace`).
So the log is causal exactly in the runs in which the dispatcher never records a delivery
while the sender of the message is still inside `sendMessage` (`logCausal_iff`).
-/

namespace MessagePassing

open Transition Precedence

variable {Q : PriorityQueue (Message Ticket) MessageComparator}

/-- The message stored, whose delivery is not recorded yet. -/
def DispatcherPoint.unrecorded : DispatcherPoint → Option (Message Ticket)
  | .countDelivered msg | .logDelivered msg => some msg
  | _ => none

/-- The message whose delivery is recorded next. -/
def DispatcherPoint.recording : DispatcherPoint → Option (Message Ticket)
  | .logDelivered msg => some msg
  | _ => none

theorem DispatcherPoint.mem_recording {point : DispatcherPoint} {msg : Message Ticket} :
    msg ∈ point.recording ↔ point = .logDelivered msg := by
  cases point with
  | logDelivered other =>
      rw [recording, Option.mem_def, Option.some.injEq, DispatcherPoint.logDelivered.injEq]
  | _ => exact ⟨nofun, nofun⟩

namespace Logger

/-- The tickets of the messages for which the log has a record of this event. -/
def noted (event : LogEvent) (records : List LogRecord) : List (Option Ticket) :=
  (records.filter fun record => record.event = event).map LogRecord.ticket

/-- Every delivery is recorded after the sending of the same message. -/
def Causal (records : List LogRecord) : Prop :=
  Caused (fun record => record.event = .msgSent) (fun record => record.event = .msgReceived)
    LogRecord.ticket records

theorem logAll_records (logger : Logger) (records : List LogRecord) :
    (logger.logAll records).records = logger.records ++ records := by
  induction records generalizing logger with
  | nil => exact (List.append_nil _).symm
  | cons record rest ih =>
      change ((logger.log record).logAll rest).records = _
      rw [ih, Logger.log, List.append_assoc, List.singleton_append]

theorem mem_noted {event : LogEvent} {records : List LogRecord} {ticket : Option Ticket} :
    ticket ∈ noted event records ↔
      ∃ record ∈ records, record.event = event ∧ record.ticket = ticket := by
  simp only [noted, List.mem_map, List.mem_filter, decide_eq_true_eq, and_assoc]

theorem noted_append (event : LogEvent) (first second : List LogRecord) :
    noted event (first ++ second) = noted event first ++ noted event second := by
  rw [noted, List.filter_append, List.map_append]
  rfl

theorem noted_eq_nil {event : LogEvent} {records : List LogRecord}
    (other : ∀ record ∈ records, record.event ≠ event) : noted event records = [] := by
  rw [noted, List.map_eq_nil_iff, List.filter_eq_nil_iff]
  exact fun record member same => other record member (of_decide_eq_true same)

theorem noted_append_of_other {event : LogEvent} {more : List LogRecord}
    (other : ∀ record ∈ more, record.event ≠ event) (records : List LogRecord) :
    noted event (records ++ more) = noted event records := by
  rw [noted_append, noted_eq_nil other, List.append_nil]

theorem noted_append_singleton (records : List LogRecord) (record : LogRecord) :
    noted record.event (records ++ [record]) = noted record.event records ++ [record.ticket] := by
  rw [noted_append]
  congr 1
  simp only [noted, List.filter_cons, decide_true, ↓reduceIte, List.filter_nil, List.map_singleton]

end Logger

open Logger

namespace System

/-! ## The sender's side -/

/-- The threads inside `sendMessage` send different messages, none of which is recorded as
sent yet; and a message passed to `sendMessage` is with such a thread, dropped, or recorded
as sent. -/
structure SendTrace (calls : List SendCall) (sent : List Ticket)
    (dropped : List (Message Ticket)) (records : List LogRecord) : Prop where
  distinct : (calls.map fun call => call.msg.ticket).Nodup
  callSent : ∀ call ∈ calls, call.msg.ticket ∈ sent
  noteSent : ∀ ticket, some ticket ∈ noted .msgSent records → ticket ∈ sent
  callDropped : ∀ call ∈ calls, call.stage = .dropped → call.msg ∈ dropped
  unnoted : ∀ call ∈ calls, some call.msg.ticket ∉ noted .msgSent records
  accounted : ∀ ticket ∈ sent, (∃ call ∈ calls, call.msg.ticket = ticket) ∨
    (∃ msg ∈ dropped, msg.ticket = ticket) ∨ some ticket ∈ noted .msgSent records

variable {calls front back : List SendCall} {call : SendCall} {sent : List Ticket}
  {dropped : List (Message Ticket)} {records more : List LogRecord} {record : LogRecord}

theorem SendTrace.nil : SendTrace [] [] [] [] where
  distinct := List.nodup_nil
  callSent _ absent := (List.not_mem_nil absent).elim
  noteSent _ absent := (List.not_mem_nil absent).elim
  callDropped _ absent := (List.not_mem_nil absent).elim
  unnoted _ absent := (List.not_mem_nil absent).elim
  accounted _ absent := (List.not_mem_nil absent).elim

/-- A thread enters `sendMessage` with a new message. -/
theorem SendTrace.enter (trace : SendTrace calls sent dropped records)
    (unsent : call.msg.ticket ∉ sent) (stage : call.stage = .entered) :
    SendTrace (calls ++ [call]) (sent ++ [call.msg.ticket]) dropped records where
  distinct := by
    rw [List.map_append, List.map_singleton]
    apply trace.distinct.append (List.nodup_singleton _)
    rw [List.disjoint_singleton]
    intro member
    obtain ⟨other, inside, same⟩ := List.mem_map.mp member
    exact unsent (same ▸ trace.callSent other inside)
  callSent other member := by
    rcases List.mem_append.mp member with earlier | last
    · exact List.mem_append_left _ (trace.callSent other earlier)
    · rw [List.mem_singleton.mp last]
      exact List.mem_append_right _ List.mem_cons_self
  noteSent ticket isNoted := List.mem_append_left _ (trace.noteSent ticket isNoted)
  callDropped other member atDropped := by
    rcases List.mem_append.mp member with earlier | last
    · exact trace.callDropped other earlier atDropped
    · rw [List.mem_singleton.mp last, stage] at atDropped
      cases atDropped
  unnoted other member := by
    rcases List.mem_append.mp member with earlier | last
    · exact trace.unnoted other earlier
    · rw [List.mem_singleton.mp last]
      exact fun isNoted => unsent (trace.noteSent _ isNoted)
  accounted ticket member := by
    rcases List.mem_append.mp member with earlier | last
    · rcases trace.accounted ticket earlier with ⟨other, inside, same⟩ | elsewhere
      · exact Or.inl ⟨other, List.mem_append_left _ inside, same⟩
      · exact Or.inr elsewhere
    · rw [List.mem_singleton.mp last]
      exact Or.inl ⟨call, List.mem_append_right _ List.mem_cons_self, rfl⟩

/-- A thread goes on inside `sendMessage`; what it drops is dropped. -/
theorem SendTrace.advance (trace : SendTrace (front ++ call :: back) sent dropped records)
    (stage : SendStage) {later : List (Message Ticket)} (kept : dropped ⊆ later)
    (put : stage = .dropped → call.msg ∈ later) :
    SendTrace (front ++ { call with stage := stage } :: back) sent later records := by
  obtain ⟨distinct, callSent, noteSent, callDropped, unnoted, accounted⟩ := trace
  rw [List.map_append, List.map_cons] at distinct
  rw [List.forall_mem_append, List.forall_mem_cons] at callSent callDropped unnoted
  constructor
  · rw [List.map_append, List.map_cons]
    exact distinct
  · rw [List.forall_mem_append, List.forall_mem_cons]
    exact callSent
  · exact noteSent
  · rw [List.forall_mem_append, List.forall_mem_cons]
    exact ⟨fun other member at_ => kept (callDropped.1 other member at_), put,
      fun other member at_ => kept (callDropped.2.2 other member at_)⟩
  · rw [List.forall_mem_append, List.forall_mem_cons]
    exact unnoted
  · intro ticket member
    rcases accounted ticket member with ⟨other, inside, same⟩ | ⟨msg, gone, same⟩ | isNoted
    · left
      rcases List.mem_cons.mp (List.perm_middle.mem_iff.mp inside) with rfl | elsewhere
      · exact ⟨_, List.mem_append_right _ List.mem_cons_self, same⟩
      · exact ⟨other, List.perm_middle.mem_iff.mpr (List.mem_cons_of_mem _ elsewhere), same⟩
    · exact Or.inr (Or.inl ⟨msg, kept gone, same⟩)
    · exact Or.inr (Or.inr isNoted)

/-- A thread leaves `sendMessage` with a record of what became of its message. -/
theorem SendTrace.finish (trace : SendTrace (front ++ call :: back) sent dropped records)
    (stages : call.stage = .dropped ∧ record.event = .msgDropped ∨
      call.stage = .queued ∧ record.event = .msgSent)
    (about : record.ticket = some call.msg.ticket) :
    SendTrace (front ++ back) sent dropped (records ++ [record]) := by
  have fewer : (front ++ back).Sublist (front ++ call :: back) :=
    List.Sublist.append_left (List.sublist_cons_self call back) front
  have here : call ∈ front ++ call :: back := List.mem_append_right _ List.mem_cons_self
  have others : ∀ other ∈ front ++ back, other.msg.ticket ≠ call.msg.ticket := by
    have distinct := trace.distinct
    rw [List.map_append, List.map_cons, List.nodup_middle, List.nodup_cons, ← List.map_append]
      at distinct
    exact fun other member same => distinct.1 (same ▸ List.mem_map_of_mem member)
  have noted_iff (ticket : Ticket) : some ticket ∈ noted .msgSent (records ++ [record]) ↔
      some ticket ∈ noted .msgSent records ∨
        record.event = .msgSent ∧ ticket = call.msg.ticket := by
    rw [noted_append, List.mem_append]
    apply or_congr_right
    rw [mem_noted]
    simp only [List.mem_singleton, exists_eq_left, about, Option.some.injEq]
    exact and_congr_right fun _ => eq_comm
  constructor
  · exact trace.distinct.sublist (fewer.map _)
  · exact fun other member => trace.callSent other (fewer.subset member)
  · intro ticket isNoted
    rcases (noted_iff ticket).mp isNoted with earlier | ⟨-, rfl⟩
    · exact trace.noteSent ticket earlier
    · exact trace.callSent call here
  · exact fun other member => trace.callDropped other (fewer.subset member)
  · intro other member isNoted
    rcases (noted_iff _).mp isNoted with earlier | ⟨-, same⟩
    · exact trace.unnoted other (fewer.subset member) earlier
    · exact others other member same
  · intro ticket member
    rcases trace.accounted ticket member with ⟨other, inside, rfl⟩ | gone | isNoted
    · rcases List.mem_cons.mp (List.perm_middle.mem_iff.mp inside) with rfl | elsewhere
      · rcases stages with ⟨stage, -⟩ | ⟨-, event⟩
        · exact Or.inr (Or.inl ⟨other.msg, trace.callDropped other here stage, rfl⟩)
        · exact Or.inr (Or.inr ((noted_iff _).mpr (Or.inr ⟨event, rfl⟩)))
      · exact Or.inl ⟨other, elsewhere, rfl⟩
    · exact Or.inr (Or.inl gone)
    · exact Or.inr (Or.inr ((noted_iff ticket).mpr (Or.inl isNoted)))

/-- Other records tell nothing about sendings. -/
theorem SendTrace.note (trace : SendTrace calls sent dropped records)
    (other : ∀ record ∈ more, record.event ≠ .msgSent) :
    SendTrace calls sent dropped (records ++ more) := by
  obtain ⟨distinct, callSent, noteSent, callDropped, unnoted, accounted⟩ := trace
  rw [← noted_append_of_other other] at noteSent
  simp only [← noted_append_of_other other records] at unnoted accounted
  exact ⟨distinct, callSent, noteSent, callDropped, unnoted, accounted⟩

variable {s next : System Q} {act : Action}

theorem SendTrace.step (trace : SendTrace s.calls s.sent s.dropped s.logger.records)
    (conserved : s.Conserved) (kind : StepKind s act next) :
    SendTrace next.calls next.sent next.dropped next.logger.records := by
  have fresh (msg : Message Unit) : (⟨s.sent.length, msg⟩ : Ticket) ∉ s.sent := fun member =>
    Nat.lt_irrefl _ (conserved.serial_lt member)
  have silent {record : LogRecord} (event : record.event ≠ .msgSent) :
      SendTrace s.calls s.sent s.dropped (s.logger.records ++ [record]) :=
    trace.note fun other member => List.mem_singleton.mp member ▸ event
  cases kind with
  | enter msg => exact trace.enter (fresh msg) rfl
  | send => exact trace.enter (fresh _) rfl
  | count index drop front back call split stage =>
      rw [split] at trace
      exact trace.advance .counted (List.Subset.refl _) SendStage.noConfusion
  | drop index front back call split stage =>
      rw [split] at trace
      exact trace.advance .dropped (List.subset_append_left _ _) fun _ =>
        List.mem_append_right _ List.mem_cons_self
  | queue index front back call split stage =>
      rw [split] at trace
      exact trace.advance .queued (List.Subset.refl _) SendStage.noConfusion
  | finish index drop front back call record split stages about =>
      rw [split] at trace
      exact trace.finish stages about
  | run id process records ran =>
      rw [Logger.logAll_records]
      exact trace.note fun record member => ((Process.run_cases ran).1 record member).1
  | age =>
      rw [Logger.logAll_records]
      exact trace.note fun record member => (uncounted_agingRecords s.scheduler record member).1
  | reject msg record point registered full uncounted => exact silent uncounted.1
  | logDelivered msg record point event =>
      apply silent
      rw [event]
      decide
  | note msg record point uncounted => exact silent uncounted.1
  | _ => exact trace

/-! ## The dispatcher's side -/

/-- A message is stored from the dispatcher's hand. -/
theorem unrecorded_step {msg : Message Ticket} (kind : StepKind s act next)
    (stored : next.dispatcher.unrecorded = some msg) :
    s.dispatcher.unrecorded = some msg ∨ s.Stores act msg := by
  cases kind with
  | accept other queue point registered room =>
      obtain rfl := Option.some.inj stored
      exact Or.inr ⟨rfl, point, registered, room⟩
  | countDelivered other point =>
      rw [point]
      exact Or.inl stored
  | age => cases stored
  | advance => cases stored
  | pick => cases stored
  | idle => cases stored
  | reject => cases stored
  | discard => cases stored
  | logDelivered => cases stored
  | note => cases stored
  | _ => exact Or.inl stored

/-- The dispatcher records a delivery once it counted it, and only then. -/
theorem deliveries_step (kind : StepKind s act next) :
    ∃ more, next.logger.records = s.logger.records ++ more ∧
      ((∀ record ∈ more, record.event ≠ .msgReceived) ∨
        ∃ msg record, act = .dispatch ∧ s.dispatcher = .logDelivered msg ∧ more = [record] ∧
          record.event = .msgReceived ∧ record.ticket = some msg.ticket ∧
          next.dispatcher = .iteration) := by
  have single {record : LogRecord} (event : record.event ≠ .msgReceived) :
      ∀ other ∈ [record], other.event ≠ .msgReceived := fun other member =>
    List.mem_singleton.mp member ▸ event
  cases kind with
  | finish index drop front back call record split stages =>
      refine ⟨[record], rfl, Or.inl (single ?_)⟩
      rcases stages with ⟨-, event⟩ | ⟨-, event⟩ <;> rw [event] <;> decide
  | run id process records ran =>
      refine ⟨records, logAll_records _ _, Or.inl fun record member => ?_⟩
      exact ((Process.run_cases ran).1 record member).2.1
  | age =>
      refine ⟨agingRecords s.scheduler, logAll_records _ _, Or.inl fun record member => ?_⟩
      exact (uncounted_agingRecords s.scheduler record member).2.1
  | reject msg record point registered full uncounted =>
      exact ⟨[record], rfl, Or.inl (single uncounted.2.1)⟩
  | logDelivered msg record point event about =>
      exact ⟨[record], rfl, Or.inr ⟨msg, record, rfl, point, rfl, event, about, rfl⟩⟩
  | note msg record point uncounted => exact ⟨[record], rfl, Or.inl (single uncounted.2.1)⟩
  | _ => exact ⟨[], (List.append_nil _).symm, Or.inl fun _ absent => (List.not_mem_nil absent).elim⟩

theorem logDelivered_step {msg : Message Ticket} (kind : StepKind s .dispatch next)
    (point : s.dispatcher = .logDelivered msg) :
    ∃ record, next.logger.records = s.logger.records ++ [record] ∧
      record.event = .msgReceived ∧ record.ticket = some msg.ticket := by
  cases kind with
  | control _ _ _ different => exact absurd rfl different
  | age here => cases point.symm.trans here
  | advance here => cases point.symm.trans here
  | pick _ _ here => cases point.symm.trans here
  | idle here => cases point.symm.trans here
  | accept _ _ here => cases point.symm.trans here
  | reject _ _ here => cases point.symm.trans here
  | discard _ here => cases point.symm.trans here
  | countDelivered _ here => cases point.symm.trans here
  | logDelivered other record here event about =>
      obtain rfl := DispatcherPoint.logDelivered.inj (point.symm.trans here)
      exact ⟨record, rfl, event, about⟩
  | note _ _ here =>
      rcases here with here | here
      · cases point.symm.trans here
      · cases point.symm.trans here

/-- The messages recorded as delivered have been stored, and are recorded once. -/
structure DeliveryTrace (s : System Q) : Prop where
  storing : ∀ msg, s.dispatcher.unrecorded = some msg →
    s.Reached msg.ticket ∧ some msg.ticket ∉ noted .msgReceived s.logger.records
  reached : ∀ ticket ∈ noted .msgReceived s.logger.records,
    ∃ stored, ticket = some stored ∧ s.Reached stored
  distinct : (noted .msgReceived s.logger.records).Nodup

theorem DeliveryTrace.initial (registry : Finset ℤ) :
    (initial registry : System Q).DeliveryTrace where
  storing _ stored := by cases stored
  reached _ absent := (List.not_mem_nil absent).elim
  distinct := List.nodup_nil

theorem DeliveryTrace.step (trace : s.DeliveryTrace) (conserved : s.Conserved)
    (addressed : ∀ id, Addressed s.registry id (s.processes id))
    (kind : StepKind s act next) : next.DeliveryTrace := by
  obtain ⟨storing, reached, distinct⟩ := trace
  have kept : ∀ ticket ∈ noted .msgReceived s.logger.records,
      ∃ stored, ticket = some stored ∧ next.Reached stored := by
    intro ticket member
    obtain ⟨stored, isStored, before⟩ := reached ticket member
    exact ⟨stored, isStored, before.step kind⟩
  obtain ⟨more, written, silent | ⟨msg, record, -, point, rfl, event, about, done⟩⟩ :=
    deliveries_step kind
  · rw [← noted_append_of_other silent, ← written] at distinct kept
    refine ⟨fun msg stored => ?_, kept, distinct⟩
    rw [written, noted_append_of_other silent]
    rcases unrecorded_step kind stored with earlier | stores
    · obtain ⟨before, unnoted⟩ := storing msg earlier
      exact ⟨before.step kind, unnoted⟩
    · constructor
      · refine ⟨msg.receiverID, Process.mem_tickets_of_stored ?_⟩
        rw [stores_step stores kind]
        exact Multiset.mem_cons_self msg _
      · intro isNoted
        obtain ⟨stored, isStored, before⟩ := reached _ isNoted
        rw [← Option.some.inj isStored] at before
        exact conserved.not_reached addressed ⟨msg, stores.hand, rfl⟩ before
  · obtain ⟨hasReached, unnoted⟩ := storing msg (congrArg DispatcherPoint.unrecorded point)
    have grown : noted .msgReceived next.logger.records =
        noted .msgReceived s.logger.records ++ [some msg.ticket] := by
      rw [written, ← event, noted_append_singleton, about]
    refine ⟨fun other stored => ?_, fun ticket member => ?_, ?_⟩
    · rw [done] at stored
      cases stored
    · rw [grown] at member
      rcases List.mem_append.mp member with earlier | last
      · exact kept ticket earlier
      · exact ⟨msg.ticket, List.mem_singleton.mp last, hasReached.step kind⟩
    · rw [grown]
      apply distinct.append (List.nodup_singleton _)
      rw [List.disjoint_singleton]
      exact unnoted

/-! ## Both sides -/

/-- What holds in every run. -/
structure Traced (s : System Q) : Prop where
  conserved : s.Conserved
  addressed : ∀ id, Addressed s.registry id (s.processes id)
  send : SendTrace s.calls s.sent s.dropped s.logger.records
  delivery : s.DeliveryTrace

theorem Traced.initial (registry : Finset ℤ) : (initial registry : System Q).Traced :=
  ⟨.initial registry, addressed_initial registry, .nil, .initial registry⟩

theorem Traced.step (traced : s.Traced) (taken : s.step act = some next) : next.Traced where
  conserved := traced.conserved.step taken
  addressed := addressed_step traced.addressed taken
  send := traced.send.step traced.conserved (step_kind taken)
  delivery := traced.delivery.step traced.conserved traced.addressed (step_kind taken)

theorem traced_run {registry : Finset ℤ} {acts : List Action}
    (run : exec System.step (.initial registry) acts = some s) : s.Traced :=
  exec_invariant Traced (fun _ _ _ => Traced.step) (.initial registry) run

/-- If the dispatcher is to record a delivery, the sender of the message has left
`sendMessage`. -/
def SenderLeft (s : System Q) (act : Action) : Prop :=
  act = .dispatch → ∀ msg ∈ s.dispatcher.recording, ∀ call ∈ s.calls,
    call.msg.ticket ≠ msg.ticket

instance (s : System Q) (act : Action) : Decidable (s.SenderLeft act) :=
  inferInstanceAs (Decidable (act = .dispatch → ∀ msg ∈ s.dispatcher.recording,
    ∀ call ∈ s.calls, call.msg.ticket ≠ msg.ticket))

/-- A message stored whose sender left `sendMessage` is recorded as sent. -/
theorem Traced.noted_of_left (traced : s.Traced) {msg : Message Ticket}
    (stored : s.dispatcher.unrecorded = some msg)
    (left : ∀ call ∈ s.calls, call.msg.ticket ≠ msg.ticket) :
    some msg.ticket ∈ noted .msgSent s.logger.records := by
  obtain ⟨reached, -⟩ := traced.delivery.storing msg stored
  have sent := traced.conserved.reached_sent traced.addressed reached
  rcases traced.send.accounted _ sent with ⟨call, inside, same⟩ | ⟨other, gone, same⟩ | isNoted
  · exact absurd same (left call inside)
  · have unreached := traced.conserved.not_reached_of_located traced.addressed
      (mem_located_dropped gone) (fun _ => Place.noConfusion) (fun _ => Place.noConfusion)
    exact absurd (same ▸ reached) unreached
  · exact isNoted

theorem Traced.causal_step (traced : s.Traced) (causal : Causal s.logger.records)
    (left : s.SenderLeft act) (taken : s.step act = some next) : Causal next.logger.records := by
  obtain ⟨more, written, silent | ⟨msg, record, isDispatch, point, rfl, -, about, -⟩⟩ :=
    deliveries_step (step_kind taken)
  · rw [written]
    exact causal.append silent
  · have isNoted := traced.noted_of_left (congrArg DispatcherPoint.unrecorded point)
      (left isDispatch msg (DispatcherPoint.mem_recording.mpr point))
    rw [written]
    refine caused_append_singleton.mpr ⟨causal, fun _ => ?_⟩
    rw [about]
    exact mem_noted.mp isNoted

theorem Traced.not_causal_step (traced : s.Traced) (inside : ¬ s.SenderLeft act)
    (taken : s.step act = some next) : ¬ Causal next.logger.records := by
  simp only [SenderLeft, not_forall, not_not] at inside
  obtain ⟨rfl, msg, recording, call, member, same⟩ := inside
  obtain ⟨record, written, event, about⟩ := logDelivered_step (step_kind taken)
    (DispatcherPoint.mem_recording.mp recording)
  intro causal
  rw [written] at causal
  have found := (caused_append_singleton.mp causal).2 event
  rw [about, ← same] at found
  exact traced.send.unnoted call member (mem_noted.mpr found)

/-- The log only grows. -/
theorem records_run {acts : List Action} {last : System Q}
    (run : exec System.step s acts = some last) :
    s.logger.records <+: last.logger.records := by
  refine exec_invariant (fun later : System Q => s.logger.records <+: later.logger.records)
    (fun _ _ _ grown taken => ?_) (List.prefix_refl _) run
  obtain ⟨more, written, -⟩ := deliveries_step (step_kind taken)
  rw [written]
  exact grown.trans (List.prefix_append _ more)

/-- In a causal log, no more deliveries than sendings were counted. -/
theorem Traced.totalReceived_le (traced : s.Traced) (recorded : s.logger.Recorded)
    (causal : Causal s.logger.records) : s.logger.totalReceived ≤ s.logger.totalSent := by
  rw [recorded.totalReceived, recorded.totalSent]
  exact causal.countP_le traced.delivery.distinct

end System

/-- **When the log is causal.** In every run, whatever the threads inside `sendMessage` and
the dispatcher do in which order: every delivery is recorded after the sending of the same
message, and no more deliveries than sendings are counted, if and only if the dispatcher
recorded no delivery while the sender of the message was still inside `sendMessage`. The
counters are taken as unbounded integers. -/
theorem logCausal_iff {registry : Finset ℤ} {acts : List Action} {s : System Q}
    (run : exec System.step (.initial registry) acts = some s) :
    Along System.SenderLeft System.step (.initial registry : System Q) acts ↔
      Causal s.logger.records ∧ s.logger.totalReceived ≤ s.logger.totalSent := by
  constructor
  · intro along
    have kept := exec_invariant_along
      (fun later : System Q => later.Traced ∧ Causal later.logger.records)
      (fun _ _ _ holds left taken =>
        ⟨holds.1.step taken, holds.1.causal_step holds.2 left taken⟩)
      ⟨.initial registry, caused_nil⟩ along run
    exact ⟨kept.2, kept.1.totalReceived_le (System.recorded_run run) kept.2⟩
  · rintro ⟨causal, -⟩
    by_contra violated
    obtain ⟨before, act, after, middle, next, -, reached, inside, taken, remaining⟩ :=
      exists_of_not_along run violated
    apply (System.traced_run reached).not_causal_step inside taken
    obtain ⟨more, grown⟩ := System.records_run remaining
    rw [← grown] at causal
    exact causal.of_append

/-- The sender records its message before the dispatcher takes it. -/
theorem logCausal_recordedAtOnce :
    let acts := [.enter (.create 1 2 "" .low 1 ""), .proceed 0 false, .proceed 0 false,
      .proceed 0 false] ++ List.replicate 5 .dispatch
    ∃ s : System (PriorityQueue.scanned MessageComparator),
      exec System.step (.initial {1, 2}) acts = some s ∧ s.logger.totalReceived = 1 ∧
      Causal s.logger.records ∧ s.logger.totalReceived ≤ s.logger.totalSent := by
  intro acts
  have reached : (exec (System.step (Q := PriorityQueue.scanned MessageComparator))
      (.initial {1, 2}) acts).any (fun s => decide (s.logger.totalReceived = 1 ∧
        Along System.SenderLeft (System.step (Q := PriorityQueue.scanned MessageComparator))
          (.initial {1, 2}) acts)) = true := by
    decide +kernel
  obtain ⟨s, run, facts⟩ := (Option.any_eq_true _ _).mp reached
  obtain ⟨received, along⟩ := of_decide_eq_true facts
  exact ⟨s, run, received, (logCausal_iff run).mp along⟩

/-- The message is delivered and its delivery recorded while its sender has not recorded
it yet. -/
theorem delivery_recordedFirst :
    let acts := [.enter (.create 1 2 "" .low 1 ""), .proceed 0 false, .proceed 0 false] ++
      List.replicate 5 .dispatch
    ∃ s : System (PriorityQueue.scanned MessageComparator),
      exec System.step (.initial {1, 2}) acts = some s ∧
      ¬ Causal s.logger.records ∧ s.logger.totalSent < s.logger.totalReceived := by
  intro acts
  have reached : (exec (System.step (Q := PriorityQueue.scanned MessageComparator))
      (.initial {1, 2}) acts).any (fun s => decide (
        s.logger.records.map LogRecord.event = [.msgReceived] ∧
        s.logger.totalSent < s.logger.totalReceived)) = true := by
    decide +kernel
  obtain ⟨s, run, facts⟩ := (Option.any_eq_true _ _).mp reached
  obtain ⟨events, fewer⟩ := of_decide_eq_true facts
  refine ⟨s, run, fun causal => ?_, fewer⟩
  obtain ⟨record, single, event⟩ := List.map_eq_singleton_iff.mp events
  obtain ⟨earlier, absent, -⟩ := causal [] record [] single event
  exact List.not_mem_nil absent

end MessagePassing
