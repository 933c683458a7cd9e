import MessagePassing.Foundation.Transition
import MessagePassing.System.Turns

/-! # The journey of a message

Between a thread inside `sendMessage` and those a process received a message goes through the
same places in every run, and each leg has its condition: the scheduler gives away a message of
the highest score, an inbox takes one that has room, rejects one that has not, and gives away a
message of the highest rank (`System.Travels`). A step moves a message by a leg or leaves it
(`System.at_step`); so what a message went through is a journey from its sender
(`messageJourneys`).
-/

namespace MessagePassing

open Transition

variable {Q : PriorityQueue (Message Ticket) MessageComparator}

/-- The places a message does not leave. -/
def Place.Final : Place → Prop
  | .dropped | .received _ | .rejected | .discarded => True
  | .sender | .scheduler | .dispatcher | .inbox _ => False

namespace System

variable {s next : System Q} {act : Action} {place : Place} {msg : Message Ticket}

/-- The message is at this place. -/
def At (s : System Q) : Place → Message Ticket → Prop
  | .sender, msg => ∃ call ∈ s.calls, call.msg = msg ∧
      (call.stage = .entered ∨ call.stage = .counted)
  | .dropped, msg => msg ∈ s.dropped
  | .scheduler, msg => msg ∈ s.scheduler.pendingMessages
  | .dispatcher, msg => s.dispatcher = .deliver msg
  | .inbox id, msg => id ∈ s.registry ∧ msg ∈ (s.processes id).queue.contents
  | .received id, msg => id ∈ s.registry ∧ msg ∈ (s.processes id).received
  | .rejected, msg => msg ∈ s.rejected
  | .discarded, msg => msg ∈ s.discarded

/-- One leg of a journey, with the condition on the system it starts in. -/
inductive Travels (s : System Q) : Located → Located → Prop
  | drop (msg : Message Ticket) : Travels s (.sender, msg) (.dropped, msg)
  | queue (msg : Message Ticket) : Travels s (.sender, msg) (.scheduler, msg)
  | boost (msg : Message Ticket) : msg.Boosted → Travels s (.scheduler, msg) (.scheduler, msg.age)
  | skip (msg : Message Ticket) : s.dispatcher = .pick →
      Travels s (.scheduler, msg) (.scheduler, msg.skip)
  | pick (msg : Message Ticket) : s.dispatcher = .pick →
      (∀ other ∈ s.scheduler.pendingMessages, other.score ≤ msg.score) →
      Travels s (.scheduler, msg) (.dispatcher, msg)
  | store (msg : Message Ticket) : msg.receiverID ∈ s.registry →
      (s.processes msg.receiverID).queue.size < Config.maxQueueSize →
      Travels s (.dispatcher, msg) (.inbox msg.receiverID, msg)
  | reject (msg : Message Ticket) : msg.receiverID ∈ s.registry →
      Config.maxQueueSize ≤ (s.processes msg.receiverID).queue.size →
      Travels s (.dispatcher, msg) (.rejected, msg)
  | discard (msg : Message Ticket) : msg.receiverID ∉ s.registry →
      Travels s (.dispatcher, msg) (.discarded, msg)
  | receive (id : ℤ) (msg : Message Ticket) :
      (∀ other ∈ (s.processes id).queue.contents, other.rank ≤ msg.rank) →
      Travels s (.inbox id, msg) (.received id, msg)

theorem Travels.ticket {before after : Located} (travels : s.Travels before after) :
    after.2.ticket = before.2.ticket := by
  cases travels with
  | boost msg => exact msg.age_ticket
  | _ => rfl

theorem Travels.not_final {before after : Located} (travels : s.Travels before after) :
    ¬ before.1.Final := by
  cases travels <;> exact id

/-! ## Where a message is -/

theorem mem_entries {here : Place} {messages : List (Message Ticket)} :
    (place, msg) ∈ entries here messages ↔ here = place ∧ msg ∈ messages := by
  rw [entries, Multiset.mem_map]
  constructor
  · rintro ⟨other, member, same⟩
    obtain ⟨rfl, rfl⟩ := Prod.mk.inj same
    exact ⟨rfl, member⟩
  · rintro ⟨rfl, member⟩
    exact ⟨msg, member, rfl⟩

theorem mem_held_call {call : SendCall} : (place, msg) ∈ call.held ↔
    place = .sender ∧ call.msg = msg ∧ (call.stage = .entered ∨ call.stage = .counted) := by
  unfold SendCall.held
  cases stage : call.stage with
  | entered | counted =>
      simp only [Multiset.mem_singleton, Prod.mk.injEq, reduceCtorEq, or_true, true_or, and_true,
        eq_comm]
  | dropped | queued =>
      simp only [Multiset.notMem_zero, reduceCtorEq, or_self, and_false]

theorem mem_held_calls {calls : List SendCall} :
    (place, msg) ∈ (calls.map SendCall.held).sum ↔
      place = .sender ∧ ∃ call ∈ calls, call.msg = msg ∧
        (call.stage = .entered ∨ call.stage = .counted) := by
  induction calls with
  | nil => simp only [List.map_nil, List.sum_nil, Multiset.notMem_zero, List.not_mem_nil,
      false_and, exists_false, and_false]
  | cons call rest ih =>
      rw [List.map_cons, List.sum_cons, Multiset.mem_add, ih, mem_held_call, ← and_or_left]
      simp only [List.mem_cons, exists_eq_or_imp]

theorem mem_held_dispatcher {point : DispatcherPoint} :
    (place, msg) ∈ point.held ↔ place = .dispatcher ∧ point = .deliver msg := by
  cases point with
  | deliver other =>
      simp only [DispatcherPoint.held, Multiset.mem_singleton, Prod.mk.injEq,
        DispatcherPoint.deliver.injEq, eq_comm]
  | _ => simp only [DispatcherPoint.held, Multiset.notMem_zero, reduceCtorEq, and_false]

theorem mem_held_process {id : ℤ} {process : Process Q} : (place, msg) ∈ process.held id ↔
    place = .inbox id ∧ msg ∈ process.queue.contents ∨
      place = .received id ∧ msg ∈ process.received := by
  rw [Process.held, Multiset.mem_add, mem_entries, Multiset.mem_map]
  apply or_congr _ (and_congr_left fun _ => eq_comm)
  constructor
  · rintro ⟨other, member, same⟩
    obtain ⟨rfl, rfl⟩ := Prod.mk.inj same
    exact ⟨rfl, member⟩
  · rintro ⟨rfl, member⟩
    exact ⟨msg, member, rfl⟩

/-- A message is located where it is. -/
theorem mem_located : (place, msg) ∈ s.located ↔ s.At place msg := by
  simp only [located, Multiset.mem_add, mem_entries, mem_held_calls, mem_held_dispatcher,
    Multiset.mem_sum, mem_held_process]
  cases place <;> simp [At]

/-! ## What a step does to it -/

/-- The message is where it will be, or comes there by one leg. -/
def Comes (s : System Q) (after : Located) : Prop :=
  s.At after.1 after.2 ∨ ∃ before : Located, s.At before.1 before.2 ∧ s.Travels before after

/-- The calls when one of them changes. -/
theorem mem_calls {front back : List SendCall} {call changed other : SendCall}
    (calls : s.calls = front ++ call :: back) (member : other ∈ front ++ changed :: back) :
    other = changed ∨ other ∈ s.calls := by
  rw [List.mem_append, List.mem_cons, or_left_comm] at member
  refine member.imp_right fun member => ?_
  rw [calls, List.mem_append]
  exact member.imp_right (List.mem_cons_of_mem call)

/-- A message at its sender was there, or was just passed to `sendMessage`. -/
theorem sender_step (kind : StepKind s act next) (here : next.At .sender msg) :
    s.At .sender msg ∨ ∃ sent, msg = sent.stamp s.sent.length ∧
      next.sent = s.sent ++ [⟨s.sent.length, sent⟩] := by
  obtain ⟨call, member, rfl, stage⟩ := here
  cases kind with
  | enter sent =>
      rcases List.mem_append.mp member with before | last
      · exact Or.inl ⟨call, before, rfl, stage⟩
      · rw [List.mem_singleton.mp last]
        exact Or.inr ⟨sent, rfl, rfl⟩
  | send id targetID msgPrio timestamp process =>
      rcases List.mem_append.mp member with before | last
      · exact Or.inl ⟨call, before, rfl, stage⟩
      · rw [List.mem_singleton.mp last]
        exact Or.inr ⟨_, rfl, rfl⟩
  | count index drop front back other calls entered =>
      left
      rcases mem_calls calls member with rfl | before
      · exact ⟨other, calls ▸ List.mem_append_right _ List.mem_cons_self, rfl, Or.inl entered⟩
      · exact ⟨call, before, rfl, stage⟩
  | drop index front back other calls | queue index front back other calls =>
      left
      rcases mem_calls calls member with rfl | before
      · rcases stage with stage | stage <;> cases stage
      · exact ⟨call, before, rfl, stage⟩
  | finish index drop front back other record calls =>
      left
      rcases List.mem_append.mp member with before | before
      · exact ⟨call, calls ▸ List.mem_append_left _ before, rfl, stage⟩
      · exact ⟨call, calls ▸ List.mem_append_right _ (List.mem_cons_of_mem _ before), rfl, stage⟩
  | _ => exact Or.inl ⟨call, member, rfl, stage⟩

/-- A thread inside `sendMessage` still holds the message it drops or queues. -/
theorem at_sender {front back : List SendCall} {call : SendCall}
    (calls : s.calls = front ++ call :: back) (counted : call.stage = .counted) :
    s.At .sender call.msg :=
  ⟨call, calls ▸ List.mem_append_right front List.mem_cons_self, rfl, Or.inr counted⟩

theorem dropped_step (kind : StepKind s act next) (here : next.At .dropped msg) :
    s.Comes (.dropped, msg) := by
  cases kind with
  | drop index front back call calls counted =>
      rcases List.mem_append.mp here with before | last
      · exact Or.inl before
      · rw [List.mem_singleton.mp last]
        exact Or.inr ⟨_, at_sender calls counted, .drop _⟩
  | _ => exact Or.inl here

theorem pending_step (kind : StepKind s act next) (here : next.At .scheduler msg) :
    s.Comes (.scheduler, msg) := by
  cases kind with
  | queue index front back call calls counted =>
      rcases List.mem_append.mp here with before | last
      · exact Or.inl before
      · rw [List.mem_singleton.mp last]
        exact Or.inr ⟨_, at_sender calls counted, .queue _⟩
  | age =>
      obtain ⟨earlier, pending, rfl⟩ := List.mem_map.mp here
      by_cases boosted : earlier.Boosted
      · exact Or.inr ⟨(.scheduler, earlier), pending, .boost earlier boosted⟩
      · rw [Message.age_of_not_boosted boosted]
        exact Or.inl pending
  | pick out rest point picked =>
      obtain ⟨earlier, pending, rfl⟩ := Scheduler.mem_of_mem_next picked here
      exact Or.inr ⟨(.scheduler, earlier), pending, .skip earlier point⟩
  | _ => exact Or.inl here

theorem hand_step (kind : StepKind s act next) (here : next.At .dispatcher msg) :
    s.Comes (.dispatcher, msg) := by
  cases kind with
  | pick out rest point picked =>
      obtain rfl := DispatcherPoint.deliver.inj here
      exact Or.inr ⟨(.scheduler, out), Scheduler.out_mem picked,
        .pick out point fun _ pending => Scheduler.score_le_of_mem picked pending⟩
  | age | advance | idle | accept | reject | discard | countDelivered | logDelivered | note =>
      cases here
  | _ => exact Or.inl here

theorem rejected_step (kind : StepKind s act next) (here : next.At .rejected msg) :
    s.Comes (.rejected, msg) := by
  cases kind with
  | reject other record point registered full =>
      rcases List.mem_append.mp here with before | last
      · exact Or.inl before
      · rw [List.mem_singleton.mp last]
        exact Or.inr ⟨(.dispatcher, other), point, .reject other registered full⟩
  | _ => exact Or.inl here

theorem discarded_step (kind : StepKind s act next) (here : next.At .discarded msg) :
    s.Comes (.discarded, msg) := by
  cases kind with
  | discard other point unregistered =>
      rcases List.mem_append.mp here with before | last
      · exact Or.inl before
      · rw [List.mem_singleton.mp last]
        exact Or.inr ⟨(.dispatcher, other), point, .discard other unregistered⟩
  | _ => exact Or.inl here

/-- A process takes at most one message out of its inbox, of the highest rank. -/
theorem run_takes {process later : Process Q} {records : List LogRecord}
    (ran : process.run = some (later, records)) :
    later.queue = process.queue ∧ later.received = process.received ∨
      ∃ out, process.queue.Takes out later.queue ∧
        later.received = process.received ++ [out] := by
  cases Process.turn_of_run ran with
  | take out queue _ takes => exact Or.inr ⟨out, takes, rfl⟩
  | retake out queue _ takes => exact Or.inr ⟨out, takes, rfl⟩
  | _ => exact Or.inl ⟨rfl, rfl⟩

theorem inbox_step {id : ℤ} (kind : StepKind s act next) (here : next.At (.inbox id) msg) :
    s.Comes (.inbox id, msg) := by
  obtain ⟨registered, stored⟩ := here
  rw [registry_step kind] at registered
  rcases process_step kind id with ⟨same, -⟩ | ⟨records, -, ran⟩ |
    ⟨other, stores, rfl, contents, -⟩
  · rw [same] at stored
    exact Or.inl ⟨registered, stored⟩
  · rcases run_takes ran with ⟨same, -⟩ | ⟨out, takes, -⟩
    · rw [same] at stored
      exact Or.inl ⟨registered, stored⟩
    · refine Or.inl ⟨registered, ?_⟩
      rw [takes.contents]
      exact Multiset.mem_cons_of_mem stored
  · rw [contents] at stored
    rcases Multiset.mem_cons.mp stored with rfl | before
    · exact Or.inr ⟨(.dispatcher, msg), stores.hand, .store msg registered stores.room⟩
    · exact Or.inl ⟨registered, before⟩

theorem received_step {id : ℤ} (kind : StepKind s act next) (here : next.At (.received id) msg) :
    s.Comes (.received id, msg) := by
  obtain ⟨registered, received⟩ := here
  rw [registry_step kind] at registered
  rcases process_step kind id with ⟨-, same⟩ | ⟨records, -, ran⟩ | ⟨-, -, -, -, -, same⟩
  · rw [same] at received
    exact Or.inl ⟨registered, received⟩
  · rcases run_takes ran with ⟨-, same⟩ | ⟨out, takes, more⟩
    · rw [same] at received
      exact Or.inl ⟨registered, received⟩
    · rw [more] at received
      rcases List.mem_append.mp received with before | last
      · exact Or.inl ⟨registered, before⟩
      · rw [List.mem_singleton.mp last]
        exact Or.inr ⟨(.inbox id, out), ⟨registered, takes.mem⟩, .receive id out takes.maximal⟩
  · rw [same] at received
    exact Or.inl ⟨registered, received⟩

/-- **Legs only.** After a step each message is where it was, or came by one leg, or was just
passed to `sendMessage`. -/
theorem at_step (kind : StepKind s act next) (here : next.At place msg) :
    s.Comes (place, msg) ∨ ∃ sent, (place, msg) = (.sender, sent.stamp s.sent.length) ∧
      next.sent = s.sent ++ [⟨s.sent.length, sent⟩] := by
  cases place with
  | sender =>
      rcases sender_step kind here with before | ⟨sent, rfl, more⟩
      · exact Or.inl (Or.inl before)
      · exact Or.inr ⟨sent, rfl, more⟩
  | dropped => exact Or.inl (dropped_step kind here)
  | scheduler => exact Or.inl (pending_step kind here)
  | dispatcher => exact Or.inl (hand_step kind here)
  | inbox id => exact Or.inl (inbox_step kind here)
  | received id => exact Or.inl (received_step kind here)
  | rejected => exact Or.inl (rejected_step kind here)
  | discarded => exact Or.inl (discarded_step kind here)

/-! ## Whole journeys -/

/-- In each step of a schedule a message stays or takes one leg. -/
abbrev Journey (s : System Q) : List Action → Located → Located → Prop :=
  Transition.Journey System.step Travels s

variable {acts : List Action} {before after : Located}

theorem Journey.ticket (journey : s.Journey acts before after) :
    after.2.ticket = before.2.ticket :=
  Transition.Journey.name_eq (fun entry : Located => entry.2.ticket)
    (fun _ _ _ leg => leg.ticket) journey

/-- A message passed to `sendMessage` is located somewhere. -/
theorem Conserved.exists_located (conserved : s.Conserved) {ticket : Ticket}
    (sent : ticket ∈ s.sent) : ∃ entry ∈ s.located, entry.2.ticket = ticket := by
  rw [← Multiset.mem_coe, ← conserved.tickets] at sent
  exact Multiset.mem_map.mp sent

/-- A message at its sender, passed to `sendMessage` after this state. -/
def SentLater (s : System Q) (entry : Located) : Prop :=
  entry = (.sender, entry.2.ticket.original.stamp entry.2.ticket.serial) ∧
    entry.2.ticket ∉ s.sent

/-- Every message of a later state came from its place in this one, or was sent since. -/
theorem journey_run {t : System Q} (conserved : s.Conserved)
    (run : exec System.step s acts = some t) {entry : Located} (there : entry ∈ t.located) :
    ∃ first, (first ∈ s.located ∨ s.SentLater first) ∧ s.Journey acts first entry := by
  refine exec_journey (fun t => t.Conserved ∧ s.sent ⊆ t.sent) (fun t entry => entry ∈ t.located)
    s.SentLater ?_ ?_ ⟨conserved, List.Subset.refl _⟩ run there
  · rintro t act next ⟨conserved, older⟩ taken
    exact ⟨conserved.step taken, List.Subset.trans older (sent_step taken)⟩
  · rintro t act next ⟨place, msg⟩ ⟨conserved, older⟩ taken there
    rcases at_step (step_kind taken) (mem_located.mp there) with
      (before | ⟨before, here, travels⟩) | ⟨sent, entered, -⟩
    · exact Or.inl (mem_located.mpr before)
    · exact Or.inr (Or.inl ⟨before, mem_located.mpr here, travels⟩)
    · obtain ⟨rfl, rfl⟩ := Prod.mk.inj entered
      refine Or.inr (Or.inr ⟨rfl, fun before => ?_⟩)
      exact absurd (conserved.serial_lt (older before)) (Nat.lt_irrefl _)

end System

/-- **The journey of a message.** In every run: each message is where a journey took it that
began at its sender, of legs allowed by the state of the run each was taken in; what happens
later takes it on by such legs, one a step at most; and a message dropped, rejected, discarded
or received stays so. -/
theorem messageJourneys {registry : Finset ℤ} {acts : List Action} {s : System Q}
    (run : exec System.step (.initial registry) acts = some s) :
    (∀ entry ∈ s.located, (System.initial registry : System Q).Journey acts
        (.sender, entry.2.ticket.original.stamp entry.2.ticket.serial) entry) ∧
      (∀ later t, exec System.step s later = some t → ∀ before ∈ s.located,
        ∃ after ∈ t.located, s.Journey later before after) ∧
      ∀ later t, exec System.step s later = some t → ∀ entry ∈ s.located, entry.1.Final →
        entry ∈ t.located := by
  have conserved := System.conserved_run run
  have onward : ∀ later t, exec System.step s later = some t → ∀ before ∈ s.located,
      ∃ after ∈ t.located, s.Journey later before after := by
    intro later t continued before located
    have older : s.sent ⊆ t.sent := exec_invariant (fun t : System Q => s.sent ⊆ t.sent)
      (fun _ _ _ older taken => List.Subset.trans older (System.sent_step taken))
      (List.Subset.refl _) continued
    have sent := conserved.mem_sent located
    have kept := System.conserved_run (exec_append_eq_some.mpr ⟨s, run, continued⟩)
    obtain ⟨after, there, same⟩ := kept.exists_located (older sent)
    obtain ⟨first, here | ⟨-, since⟩, journey⟩ := System.journey_run conserved continued there
    · obtain rfl := conserved.eq_of_ticket located here (same.symm.trans journey.ticket)
      exact ⟨after, there, journey⟩
    · rw [← journey.ticket, same] at since
      exact absurd sent since
  refine ⟨fun entry located => ?_, onward, ?_⟩
  · have start := System.Conserved.initial (Q := Q) registry
    obtain ⟨first, here | ⟨began, -⟩, journey⟩ := System.journey_run start run located
    · exact absurd (start.mem_sent here) List.not_mem_nil
    · rw [journey.ticket, ← began]
      exact journey
  · intro later t continued entry located final
    obtain ⟨after, there, journey⟩ := onward later t continued entry located
    have same := journey.eq_of_final (fun entry : Located => entry.1.Final)
      (fun _ _ _ leg => leg.not_final) final
    exact same ▸ there

/-- One message is received and another is still pending. -/
theorem messageJourneys_oneReceived :
    let proceed := [.proceed 0 false, .proceed 0 false, .proceed 0 false]
    let acts := .enter (.create 1 2 "" .low 1 "") :: proceed ++ List.replicate 5 .dispatch ++
      .start 2 :: .send 2 1 .low "" :: proceed ++ [.run 2, .run 2]
    ∃ s : System (PriorityQueue.scanned MessageComparator),
      exec System.step (.initial {1, 2}) acts = some s ∧
      (s.processes 2).received.length = 1 ∧ s.scheduler.pendingCount = 1 ∧
      ∀ entry ∈ s.located,
        (System.initial {1, 2} : System (PriorityQueue.scanned MessageComparator)).Journey acts
          (.sender, entry.2.ticket.original.stamp entry.2.ticket.serial) entry := by
  intro proceed acts
  have reached : (exec (System.step (Q := PriorityQueue.scanned MessageComparator))
      (.initial {1, 2}) acts).any (fun s => decide (
        (s.processes 2).received.length = 1 ∧ s.scheduler.pendingCount = 1)) = true := by
    decide +kernel
  obtain ⟨s, run, facts⟩ := (Option.any_eq_true _ _).mp reached
  obtain ⟨received, pending⟩ := of_decide_eq_true facts
  exact ⟨s, run, received, pending, (messageJourneys run).1⟩

end MessagePassing
