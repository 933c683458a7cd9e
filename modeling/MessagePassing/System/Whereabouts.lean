import MessagePassing.System.Conservation

/-! # On the way to a process

A message sent and not dropped is pending, then in the dispatcher's hand, and then, if it
is stored, with a process, whose own steps move it from the inbox to what was received. A
message a process has came from the dispatcher's hand (`System.reached_of_step`), and one
still in the hand is with no process (`System.Conserved.not_reached`).
-/

namespace MessagePassing

variable {Q : PriorityQueue (Message Ticket) MessageComparator}

namespace Process

variable {process next : Process Q} {records : List LogRecord}

/-- The tickets of the messages in the inbox and of those received. -/
def tickets (process : Process Q) : Multiset Ticket :=
  process.queue.contents.map Message.ticket +
    ((process.received.map Message.ticket : List Ticket) : Multiset Ticket)

theorem mem_tickets_of_stored {msg : Message Ticket} (stored : msg ∈ process.queue.contents) :
    msg.ticket ∈ process.tickets :=
  Multiset.mem_add.mpr (Or.inl (Multiset.mem_map_of_mem _ stored))

theorem mem_tickets_of_received {ticket : Ticket}
    (received : ticket ∈ process.received.map Message.ticket) : ticket ∈ process.tickets :=
  Multiset.mem_add.mpr (Or.inr received)

theorem tickets_of_same (queue : next.queue = process.queue)
    (received : next.received = process.received) : next.tickets = process.tickets := by
  rw [tickets, tickets, queue, received]

/-- A process's own steps keep what it has. -/
theorem tickets_run (ran : process.run = some (next, records)) :
    next.tickets = process.tickets := by
  obtain ⟨-, quiet | ⟨out, receives⟩ | counts⟩ := run_cases ran
  · exact tickets_of_same quiet.queue quiet.received
  · rw [tickets, tickets, receives.received, receives.takes.contents, Multiset.map_cons,
      List.map_append, ← Multiset.coe_add, Multiset.cons_add, ← Multiset.singleton_add]
    change _ + (_ + {out.ticket}) = _
    abel
  · exact tickets_of_same counts.queue counts.received

end Process

namespace System

variable {ticket : Ticket} {s next : System Q} {act : Action}

def Pending (s : System Q) (ticket : Ticket) : Prop :=
  ticket ∈ s.scheduler.pendingMessages.map Message.ticket

def InHand (s : System Q) (ticket : Ticket) : Prop :=
  ∃ msg, s.dispatcher = .deliver msg ∧ msg.ticket = ticket

/-- A process has the message in its inbox or received it. -/
def Reached (s : System Q) (ticket : Ticket) : Prop := ∃ id, ticket ∈ (s.processes id).tickets

/-- What a process has it keeps, and what it gets comes from the dispatcher's hand. -/
theorem tickets_step (kind : StepKind s act next) (id : ℤ) :
    (next.processes id).tickets = (s.processes id).tickets ∨
      ∃ msg, s.dispatcher = .deliver msg ∧
        (next.processes id).tickets = msg.ticket ::ₘ (s.processes id).tickets := by
  rcases process_step kind id with ⟨queue, received⟩ | ⟨records, -, ran⟩ |
    ⟨msg, stores, -, contents, -, received⟩
  · exact Or.inl (Process.tickets_of_same queue received)
  · exact Or.inl (Process.tickets_run ran)
  · refine Or.inr ⟨msg, stores.hand, ?_⟩
    rw [Process.tickets, Process.tickets, contents, received, Multiset.map_cons, Multiset.cons_add]

theorem Reached.step (reached : s.Reached ticket) (kind : StepKind s act next) :
    next.Reached ticket := by
  obtain ⟨id, held⟩ := reached
  refine ⟨id, ?_⟩
  rcases tickets_step kind id with same | ⟨msg, -, more⟩
  · rw [same]
    exact held
  · rw [more]
    exact Multiset.mem_cons_of_mem held

theorem reached_of_step (kind : StepKind s act next) (reached : next.Reached ticket) :
    s.Reached ticket ∨ s.InHand ticket := by
  obtain ⟨id, held⟩ := reached
  rcases tickets_step kind id with same | ⟨msg, hand, more⟩
  · exact Or.inl ⟨id, same ▸ held⟩
  · rw [more] at held
    rcases Multiset.mem_cons.mp held with taken | earlier
    · exact Or.inr ⟨msg, hand, taken.symm⟩
    · exact Or.inl ⟨id, earlier⟩

theorem mem_located_pending {msg : Message Ticket} (pending : msg ∈ s.scheduler.pendingMessages) :
    (Place.scheduler, msg) ∈ s.located := by
  have entry : (Place.scheduler, msg) ∈ entries .scheduler s.scheduler.pendingMessages :=
    Multiset.mem_map_of_mem _ pending
  simp only [located, Multiset.mem_add]
  exact Or.inl (Or.inl (Or.inl (Or.inl (Or.inr entry))))

theorem mem_located_hand {msg : Message Ticket} (hand : s.dispatcher = .deliver msg) :
    (Place.dispatcher, msg) ∈ s.located := by
  have entry : (Place.dispatcher, msg) ∈ s.dispatcher.held := by
    rw [hand]
    exact Multiset.mem_singleton_self _
  simp only [located, Multiset.mem_add]
  exact Or.inl (Or.inl (Or.inl (Or.inr entry)))

theorem mem_located_dropped {msg : Message Ticket} (dropped : msg ∈ s.dropped) :
    (Place.dropped, msg) ∈ s.located := by
  have entry : (Place.dropped, msg) ∈ entries .dropped s.dropped :=
    Multiset.mem_map_of_mem _ dropped
  simp only [located, Multiset.mem_add]
  exact Or.inl (Or.inl (Or.inl (Or.inl (Or.inl (Or.inr entry)))))

theorem mem_located_discarded {msg : Message Ticket} (discarded : msg ∈ s.discarded) :
    (Place.discarded, msg) ∈ s.located :=
  Multiset.mem_add.mpr (Or.inr (Multiset.mem_map_of_mem _ discarded))

variable (addressed : ∀ id, Addressed s.registry id (s.processes id))
include addressed

/-- What a process has is located with it. -/
theorem exists_located_of_reached (reached : s.Reached ticket) :
    ∃ msg : Message Ticket, msg.ticket = ticket ∧
      ∃ id, (Place.inbox id, msg) ∈ s.located ∨ (Place.received id, msg) ∈ s.located := by
  obtain ⟨id, held⟩ := reached
  rcases Multiset.mem_add.mp held with inbox | received
  · obtain ⟨msg, stored, same⟩ := Multiset.mem_map.mp inbox
    exact ⟨msg, same, id, Or.inl (mem_located_inbox (addressed id) stored)⟩
  · obtain ⟨msg, member, same⟩ := List.mem_map.mp (Multiset.mem_coe.mp received)
    exact ⟨msg, same, id, Or.inr (mem_located_received (addressed id) member)⟩

theorem Conserved.reached_sent (conserved : s.Conserved) (reached : s.Reached ticket) :
    ticket ∈ s.sent := by
  obtain ⟨msg, rfl, id, inbox | received⟩ := exists_located_of_reached addressed reached
  · exact conserved.mem_sent inbox
  · exact conserved.mem_sent received

/-- A message located elsewhere reached no process. -/
theorem Conserved.not_reached_of_located (conserved : s.Conserved) {place : Place}
    {msg : Message Ticket} (here : (place, msg) ∈ s.located) (notInbox : ∀ id, place ≠ .inbox id)
    (notReceived : ∀ id, place ≠ .received id) : ¬ s.Reached msg.ticket := by
  intro reached
  obtain ⟨other, same, id, inbox | received⟩ := exists_located_of_reached addressed reached
  · exact notInbox id (Prod.mk.inj (conserved.eq_of_ticket here inbox same.symm)).1
  · exact notReceived id (Prod.mk.inj (conserved.eq_of_ticket here received same.symm)).1

/-- A message in the dispatcher's hand reached no process. -/
theorem Conserved.not_reached (conserved : s.Conserved) (hand : s.InHand ticket) :
    ¬ s.Reached ticket := by
  obtain ⟨msg, point, rfl⟩ := hand
  exact conserved.not_reached_of_located addressed (mem_located_hand point)
    (fun _ => Place.noConfusion) (fun _ => Place.noConfusion)

end System

end MessagePassing
