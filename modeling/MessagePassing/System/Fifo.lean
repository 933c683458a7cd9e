import MessagePassing.System.Scheduling
import MessagePassing.System.Whereabouts

/-! # Two messages of one channel

The scheduler keeps messages of one original priority in the order they were sent, so
the dispatcher takes them in that order (`System.InLine`). The inbox then ranks them by
the counters they had when they were taken. If the later message is stored while the
earlier one waits there ranked strictly above it, or after it was received, the earlier
one is received first; if it is stored over an earlier message ranked strictly below it,
the later one is (`perChannelFifo`). The counters follow the skips before the
dispatch, which favour the later message as soon as both pend at once
(`fifo_reversed`).
-/

namespace MessagePassing

open Transition

variable {Q : PriorityQueue (Message Ticket) MessageComparator}

/-! ## Two messages for one process -/

namespace Process

/-- The second message cannot be received before the first: in the inbox it ranks below
the first, and once it was received the first does not come any more. -/
structure Leads (first second : Ticket) (process : Process Q) : Prop where
  ranked : ∀ a ∈ process.queue.contents, a.ticket = first →
    ∀ b ∈ process.queue.contents, b.ticket = second → b.rank < a.rank
  left : second ∈ process.received.map Message.ticket →
    ∀ a ∈ process.queue.contents, a.ticket ≠ first
  order : (process.received.map Message.ticket).Pairwise fun i j => ¬ (i = second ∧ j = first)

variable {first second : Ticket} {process next : Process Q} {records : List LogRecord}

theorem Leads.of_same (leads : process.Leads first second) (queue : next.queue = process.queue)
    (received : next.received = process.received) : next.Leads first second := by
  constructor
  · rw [queue]
    exact leads.ranked
  · rw [queue, received]
    exact leads.left
  · rw [received]
    exact leads.order

/-- A message that is not there cannot be received before another. -/
theorem Leads.of_absent (absent : second ∉ process.tickets) : process.Leads first second where
  ranked _ _ _ b stored same := absurd (same ▸ mem_tickets_of_stored stored) absent
  left received := absurd (mem_tickets_of_received received) absent
  order := by
    apply List.Pairwise.imp_of_mem ?_ (List.pairwise_of_forall (fun _ _ => trivial))
    rintro i j memberI - - ⟨rfl, -⟩
    exact absent (mem_tickets_of_received memberI)

theorem Leads.of_unreached (absent : first ∉ process.tickets) : process.Leads first second where
  ranked a stored same := absurd (same ▸ mem_tickets_of_stored stored) absent
  left _ a stored same := absurd (same ▸ mem_tickets_of_stored stored) absent
  order := by
    apply List.Pairwise.imp_of_mem ?_ (List.pairwise_of_forall (fun _ _ => trivial))
    rintro i j - memberJ - ⟨-, rfl⟩
    exact absent (mem_tickets_of_received memberJ)

/-- A receive takes no message over one that ranks above it. -/
theorem Leads.receives (leads : process.Leads first second) {out : Message Ticket}
    (receives : process.Receives out next) : next.Leads first second := by
  have kept : ∀ a ∈ next.queue.contents, a ∈ process.queue.contents := by
    intro a member
    rw [receives.takes.contents]
    exact Multiset.mem_cons_of_mem member
  constructor
  · intro a memberA isFirst b memberB isSecond
    exact leads.ranked a (kept a memberA) isFirst b (kept b memberB) isSecond
  · intro received a member isFirst
    rw [receives.received, List.map_append] at received
    rcases List.mem_append.mp received with earlier | last
    · exact leads.left earlier a (kept a member) isFirst
    · have taken : out.ticket = second := (List.mem_singleton.mp last).symm
      have above := leads.ranked a (kept a member) isFirst out receives.takes.mem taken
      exact (receives.takes.maximal a (kept a member)).not_gt above
  · rw [receives.received, List.map_append, List.pairwise_append]
    refine ⟨leads.order, List.pairwise_singleton _ _, fun i earlier j last both => ?_⟩
    obtain ⟨isSecond, isFirst⟩ := both
    rw [List.mem_singleton.mp last] at isFirst
    exact leads.left (isSecond ▸ earlier) out receives.takes.mem isFirst

theorem Leads.run (leads : process.Leads first second)
    (ran : process.run = some (next, records)) : next.Leads first second := by
  obtain ⟨-, quiet | ⟨out, receives⟩ | counts⟩ := run_cases ran
  · exact leads.of_same quiet.queue quiet.received
  · exact leads.receives receives
  · exact leads.of_same counts.queue counts.received

/-- A message put into the inbox: the first of the two above the second, which was not
received, or the second below the first. -/
theorem Leads.deliver (leads : process.Leads first second) {msg : Message Ticket}
    (contents : next.queue.contents = msg ::ₘ process.queue.contents)
    (received : next.received = process.received) (different : first ≠ second)
    (above : msg.ticket = first → second ∉ process.received.map Message.ticket ∧
      ∀ b ∈ process.queue.contents, b.ticket = second → b.rank < msg.rank)
    (below : msg.ticket = second → ∀ a ∈ process.queue.contents, a.ticket = first →
      msg.rank < a.rank) : next.Leads first second := by
  constructor
  · intro a memberA isFirst b memberB isSecond
    rw [contents] at memberA memberB
    rcases Multiset.mem_cons.mp memberA with rfl | storedA
    · rcases Multiset.mem_cons.mp memberB with rfl | storedB
      · exact absurd (isFirst.symm.trans isSecond) different
      · exact (above isFirst).2 b storedB isSecond
    · rcases Multiset.mem_cons.mp memberB with rfl | storedB
      · exact below isSecond a storedA isFirst
      · exact leads.ranked a storedA isFirst b storedB isSecond
  · intro earlier a member isFirst
    rw [received] at earlier
    rw [contents] at member
    rcases Multiset.mem_cons.mp member with rfl | stored
    · exact (above isFirst).1 earlier
    · exact leads.left earlier a stored isFirst
  · rw [received]
    exact leads.order

/-- When both messages were received, they were in order. -/
theorem Leads.sublist (leads : process.Leads first second) (different : first ≠ second)
    (receivedFirst : first ∈ process.received.map Message.ticket)
    (receivedSecond : second ∈ process.received.map Message.ticket) :
    [first, second].Sublist (process.received.map Message.ticket) := by
  obtain ⟨before, after, split⟩ := List.append_of_mem receivedFirst
  have order := leads.order
  rw [split] at receivedSecond order ⊢
  rcases List.mem_append.mp receivedSecond with early | late
  · exact absurd ⟨rfl, rfl⟩ ((List.pairwise_append.mp order).2.2 _ early _ List.mem_cons_self)
  · apply List.Sublist.trans ?_ (List.sublist_append_right before _)
    apply List.Sublist.cons_cons
    apply List.singleton_sublist.mpr
    exact (List.mem_cons.mp late).resolve_left different.symm

end Process

/-! ## What every run keeps -/

namespace System

variable {first second ticket : Ticket} {s next last : System Q} {act : Action}

/-- What every run keeps in which messages are passed as their constructor makes them. -/
structure Started (s : System Q) : Prop where
  conserved : s.Conserved
  addressed : ∀ id, Addressed s.registry id (s.processes id)
  fresh : s.FreshCalls
  nonneg : ∀ msg ∈ s.scheduler.pendingMessages, 0 ≤ msg.agingCounter

theorem Started.step (started : s.Started) (actFresh : act.Fresh)
    (taken : s.step act = some next) : next.Started where
  conserved := started.conserved.step taken
  addressed := addressed_step started.addressed taken
  fresh := started.fresh.step actFresh (step_kind taken)
  nonneg := by
    have unordered : s.scheduler.Ordered fun _ _ => False := by
      refine ⟨started.nonneg, ?_⟩
      exact List.pairwise_of_forall fun _ _ => ⟨False.elim, id⟩
    exact (ordered_step unordered started.fresh (step_kind taken) fun _ _ _ _ =>
      ⟨False.elim, id⟩).nonneg

theorem started_run {registry : Finset ℤ} {acts : List Action}
    (fresh : ∀ act ∈ acts, act.Fresh)
    (run : exec System.step (.initial registry) acts = some s) : s.Started := by
  refine exec_invariant_along Started (fun _ _ _ started actFresh => started.step actFresh) ?_
    (along_of_forall_mem fresh _) run
  exact ⟨.initial registry, addressed_initial registry, .initial registry,
    fun _ absent => (List.not_mem_nil absent).elim⟩

/-! ## The message sent first is ahead -/

/-- The first message was passed to `sendMessage`, which returned; the second message
was not passed yet. -/
structure SentBefore (first second : Ticket) (s : System Q) : Prop where
  sent : first ∈ s.sent
  returned : ∀ call ∈ s.calls, call.msg.ticket ≠ first
  unsent : second ∉ s.sent

instance (first second : Ticket) (s : System Q) : Decidable (SentBefore first second s) :=
  decidable_of_iff
    (first ∈ s.sent ∧ (∀ call ∈ s.calls, call.msg.ticket ≠ first) ∧ second ∉ s.sent)
    ⟨fun ⟨sent, returned, unsent⟩ => ⟨sent, returned, unsent⟩,
      fun before => ⟨before.sent, before.returned, before.unsent⟩⟩

/-- The first message left the senders and stays ahead of the second: in the scheduler,
past the dispatcher's hand before the second gets there, and at their process. -/
structure InLine (first second : Ticket) (s : System Q) : Prop where
  started : s.Started
  sent : first ∈ s.sent
  returned : ∀ call ∈ s.calls, call.msg.ticket ≠ first
  ordered : s.scheduler.Ordered fun i j => i = first ∧ j = second
  passed : s.InHand second ∨ s.Reached second → ¬ s.Pending first ∧ ¬ s.InHand first
  leads : ∀ id, (s.processes id).Leads first second

theorem Started.pending_sent (started : s.Started) (pending : s.Pending ticket) :
    ticket ∈ s.sent := by
  obtain ⟨msg, member, rfl⟩ := List.mem_map.mp pending
  exact started.conserved.mem_sent (mem_located_pending member)

theorem Started.inHand_sent (started : s.Started) (hand : s.InHand ticket) : ticket ∈ s.sent := by
  obtain ⟨msg, point, rfl⟩ := hand
  exact started.conserved.mem_sent (mem_located_hand point)

theorem InLine.begin (started : s.Started) (before : SentBefore first second s) :
    InLine first second s where
  started := started
  sent := before.sent
  returned := before.returned
  ordered := by
    have absent (msg : Message Ticket) (pending : msg ∈ s.scheduler.pendingMessages) :
        msg.ticket ≠ second := fun same =>
      before.unsent (same ▸ started.pending_sent (List.mem_map_of_mem pending))
    refine ⟨started.nonneg, List.Pairwise.imp_of_mem (fun {a b} memberA memberB _ => ?_)
      (List.pairwise_of_forall fun _ _ => trivial)⟩
    exact ⟨fun put => absurd put.2 (absent b memberB), fun put => absent a memberA put.2⟩
  passed := by
    rintro (hand | reached)
    · exact absurd (started.inHand_sent hand) before.unsent
    · exact absurd (started.conserved.reached_sent started.addressed reached) before.unsent
  leads id := by
    apply Process.Leads.of_absent
    intro held
    exact before.unsent (started.conserved.reached_sent started.addressed ⟨id, held⟩)

/-- Any step stores the second message only below the first, if that waits in the same
inbox. -/
def StoresBehind (first second : Ticket) (s : System Q) (act : Action) : Prop :=
  ∀ msg, s.Stores act msg → msg.ticket = second →
    ∀ a ∈ (s.processes msg.receiverID).queue.contents, a.ticket = first → msg.rank < a.rank

instance (first second : Ticket) (s : System Q) (act : Action) :
    Decidable (StoresBehind first second s act) :=
  decidable_of_iff
    (∀ msg ∈ s.dispatcher.message, s.Stores act msg → msg.ticket = second →
      ∀ a ∈ (s.processes msg.receiverID).queue.contents, a.ticket = first → msg.rank < a.rank)
    ⟨fun behind msg stores => behind msg (DispatcherPoint.mem_message.mpr stores.hand) stores,
      fun behind msg _ stores => behind msg stores⟩

/-- The step stores the second message above the first, which waits in the same inbox. -/
def Overtakes (first second : Ticket) (s : System Q) (act : Action) : Prop :=
  ∃ msg, s.Stores act msg ∧ msg.ticket = second ∧
    ∃ a ∈ (s.processes msg.receiverID).queue.contents, a.ticket = first ∧ a.rank < msg.rank

/-- A message added stands behind one of its original priority. -/
theorem InLine.follows (inLine : InLine first second s)
    (level : first.original.priority = second.original.priority) {call : SendCall}
    (member : call ∈ s.calls) {earlier : Message Ticket}
    (pending : earlier ∈ s.scheduler.pendingMessages) :
    earlier.Precedes (fun i j => i = first ∧ j = second) call.msg := by
  refine ⟨?_, ?_⟩
  · rintro ⟨rfl, isSecond⟩
    obtain ⟨serial, msg, stamped, counter⟩ := inLine.started.fresh call member
    have raised := (inLine.started.conserved.intact _ (mem_located_pending pending)).priority
    have original : msg.priority = second.original.priority := by
      rw [← isSecond, stamped, Message.stamp_ticket]
    apply Message.dominates_of_priority_le
    · rw [stamped, Message.stamp_priority, original, ← level]
      exact raised
    · exact inLine.started.nonneg earlier pending
    · rw [stamped, Message.stamp_agingCounter, counter]
  · rintro ⟨isFirst, -⟩
    exact inLine.returned call member isFirst

theorem InLine.step_passed (inLine : InLine first second s) (different : first ≠ second)
    (kind : StepKind s act next) (there : next.InHand second ∨ next.Reached second) :
    ¬ next.Pending first ∧ ¬ next.InHand first := by
  have reached : next.Reached second → s.InHand second ∨ s.Reached second := fun later =>
    (reached_of_step kind later).symm
  rcases scheduler_step kind with ⟨scheduler, hand⟩ | ⟨call, member, -, scheduler, hand⟩ |
    ⟨scheduler, hand⟩ | ⟨msg, point, picked, hand⟩
  · have kept (ticket : Ticket) (later : next.InHand ticket) : s.InHand ticket := by
      obtain ⟨msg, point, same⟩ := later
      exact ⟨msg, hand msg point, same⟩
    have gone := inLine.passed (there.elim (fun later => Or.inl (kept second later)) reached)
    rw [Pending, scheduler]
    exact ⟨gone.1, fun later => gone.2 (kept first later)⟩
  · rw [InHand, hand] at there
    have gone := inLine.passed (there.elim Or.inl reached)
    rw [InHand, hand, Pending, scheduler, Scheduler.addMessage_pendingMessages, List.map_append]
    refine ⟨fun pending => ?_, gone.2⟩
    rcases List.mem_append.mp pending with earlier | last
    · exact gone.1 earlier
    · exact inLine.returned call member (List.mem_singleton.mp last).symm
  · have gone := inLine.passed (there.elim (fun ⟨msg, point, _⟩ => absurd point (hand msg)) reached)
    rw [Pending, scheduler, Scheduler.applyAging_tickets]
    exact ⟨gone.1, fun ⟨msg, point, _⟩ => hand msg point⟩
  · have tickets := Scheduler.pending_tickets_perm picked
    have inHand (ticket : Ticket) : next.InHand ticket ↔ msg.ticket = ticket := by
      rw [InHand, hand]
      simp only [DispatcherPoint.deliver.injEq, exists_eq_left']
    rw [inHand]
    by_cases isSecond : msg.ticket = second
    · refine ⟨?_, ?_⟩
      · intro pending
        -- were the first still pending, the scheduler would not have picked the second
        have before : first ∈ s.scheduler.pendingMessages.map Message.ticket :=
          tickets.symm.subset (List.mem_cons_of_mem _ pending)
        obtain ⟨waiting, member, rfl⟩ := List.mem_map.mp before
        have irreflexive : ∀ ticket, ¬ (ticket = waiting.ticket ∧ ticket = second) :=
          fun ticket both => different (both.1.symm.trans both.2)
        exact inLine.ordered.not_picked irreflexive member picked ⟨rfl, isSecond⟩
      · rw [isSecond]
        exact different.symm
    · have gone := inLine.passed
        (there.elim (fun later => absurd ((inHand second).mp later) isSecond) reached)
      refine ⟨?_, ?_⟩
      · exact fun pending => gone.1 (tickets.symm.subset (List.mem_cons_of_mem _ pending))
      · rintro rfl
        exact gone.1 (tickets.symm.subset List.mem_cons_self)

theorem InLine.step (inLine : InLine first second s)
    (level : first.original.priority = second.original.priority) (different : first ≠ second)
    (actFresh : act.Fresh) (behind : StoresBehind first second s act)
    (taken : s.step act = some next) : InLine first second next where
  started := inLine.started.step actFresh taken
  sent := sent_step taken inLine.sent
  returned call member := by
    rcases calls_step (step_kind taken) member with ⟨earlier, before, same⟩ | ⟨msg, same, -⟩
    · rw [same]
      exact inLine.returned earlier before
    · intro isFirst
      rw [same, Message.stamp_ticket] at isFirst
      have below := inLine.started.conserved.serial_lt inLine.sent
      rw [← isFirst] at below
      exact Nat.lt_irrefl _ below
  ordered := ordered_step inLine.ordered inLine.started.fresh (step_kind taken)
    fun _ member _ pending => inLine.follows level member pending
  passed := inLine.step_passed different (step_kind taken)
  leads id := by
    rcases process_step (step_kind taken) id with ⟨queue, received⟩ | ⟨records, -, ran⟩ |
      ⟨msg, stores, here, contents, -, received⟩
    · exact (inLine.leads id).of_same queue received
    · exact (inLine.leads id).run ran
    · apply (inLine.leads id).deliver contents received different
      · intro isFirst
        have absent : second ∉ (s.processes id).tickets := fun held =>
          (inLine.passed (Or.inr ⟨id, held⟩)).2 ⟨msg, stores.hand, isFirst⟩
        refine ⟨fun earlier => absent (Process.mem_tickets_of_received earlier), ?_⟩
        intro b stored isSecond
        exact absurd (isSecond ▸ Process.mem_tickets_of_stored stored) absent
      · subst here
        exact behind msg stores

/-! ## The message sent second got ahead -/

/-- Both messages are with processes, and the second is received first. -/
structure Overtaken (first second : Ticket) (s : System Q) : Prop where
  started : s.Started
  reachedFirst : s.Reached first
  reachedSecond : s.Reached second
  leads : ∀ id, (s.processes id).Leads second first

theorem Overtaken.step (overtaken : Overtaken first second s) (different : first ≠ second)
    (actFresh : act.Fresh) (taken : s.step act = some next) : Overtaken first second next where
  started := overtaken.started.step actFresh taken
  reachedFirst := overtaken.reachedFirst.step (step_kind taken)
  reachedSecond := overtaken.reachedSecond.step (step_kind taken)
  leads id := by
    rcases process_step (step_kind taken) id with ⟨queue, received⟩ | ⟨records, -, ran⟩ |
      ⟨msg, stores, -, contents, -, received⟩
    · exact (overtaken.leads id).of_same queue received
    · exact (overtaken.leads id).run ran
    · apply (overtaken.leads id).deliver contents received different.symm
      · intro isSecond
        apply absurd overtaken.reachedSecond
        exact overtaken.started.conserved.not_reached overtaken.started.addressed
          ⟨msg, stores.hand, isSecond⟩
      · intro isFirst
        apply absurd overtaken.reachedFirst
        exact overtaken.started.conserved.not_reached overtaken.started.addressed
          ⟨msg, stores.hand, isFirst⟩

/-- Storing the second message above the first puts it ahead for good. -/
theorem Overtaken.of_overtakes (started : s.Started) (different : first ≠ second)
    (actFresh : act.Fresh) (overtakes : Overtakes first second s act)
    (taken : s.step act = some next) : Overtaken first second next := by
  obtain ⟨msg, stores, rfl, waiting, stored, rfl, below⟩ := overtakes
  have unreached := started.conserved.not_reached started.addressed ⟨msg, stores.hand, rfl⟩
  have waits := mem_located_inbox (started.addressed _) stored
  have reached : s.Reached waiting.ticket := ⟨_, Process.mem_tickets_of_stored stored⟩
  have contents := stores_step stores (step_kind taken)
  refine ⟨started.step actFresh taken, reached.step (step_kind taken), ?_, fun id => ?_⟩
  · refine ⟨msg.receiverID, Process.mem_tickets_of_stored ?_⟩
    rw [contents]
    exact Multiset.mem_cons_self msg _
  · -- before the step the second message is with no process, so it cannot be behind there
    have leads : (s.processes id).Leads msg.ticket waiting.ticket :=
      Process.Leads.of_unreached fun held => unreached ⟨id, held⟩
    rcases process_step (step_kind taken) id with ⟨queue, received⟩ | ⟨records, -, ran⟩ |
      ⟨other, alsoStores, rfl, contents, -, received⟩
    · exact leads.of_same queue received
    · exact leads.run ran
    · obtain rfl := DispatcherPoint.deliver.inj (stores.hand.symm.trans alsoStores.hand)
      apply leads.deliver contents received different.symm
      · intro _
        refine ⟨?_, ?_⟩
        · intro taken
          obtain ⟨out, member, same⟩ := List.mem_map.mp taken
          cases started.conserved.eq_of_ticket
            (mem_located_received (started.addressed _) member) waits same
        · intro b storedB same
          have twice := started.conserved.eq_of_ticket
            (mem_located_inbox (started.addressed _) storedB) waits same
          obtain rfl := (Prod.mk.inj twice).2
          exact below
      · exact fun same => absurd same.symm different

end System

/-- **When a channel keeps its order.** Of two messages of one original priority, the
first is passed to `sendMessage`, which returns before the second is passed, and one
process receives both. The first is received first if the second is stored in no
inbox where the first waits and does not rank strictly above it. The second is received
first if it is stored where the first waits and ranks strictly below it. -/
theorem perChannelFifo {registry : Finset ℤ} {acts later : List Action} {first second : Ticket}
    {s last : System Q} (fresh : ∀ act ∈ acts ++ later, act.Fresh)
    (run : exec System.step (.initial registry) acts = some s)
    (before : System.SentBefore first second s)
    (level : first.original.priority = second.original.priority)
    (continued : exec System.step s later = some last) {id : ℤ}
    (receivedFirst : first ∈ (last.processes id).received.map Message.ticket)
    (receivedSecond : second ∈ (last.processes id).received.map Message.ticket) :
    (Along (System.StoresBehind first second) System.step s later →
        [first, second].Sublist ((last.processes id).received.map Message.ticket)) ∧
      (¬ Along (fun s act => ¬ System.Overtakes first second s act) System.step s later →
        [second, first].Sublist ((last.processes id).received.map Message.ticket)) := by
  have started := System.started_run
    (fun act member => fresh act (List.mem_append_left later member)) run
  have freshLater : ∀ act ∈ later, act.Fresh :=
    fun act member => fresh act (List.mem_append_right acts member)
  have different : first ≠ second := by
    rintro rfl
    exact before.unsent before.sent
  refine ⟨?_, ?_⟩
  · intro behind
    have freshSteps : Along (fun _ act => act.Fresh) System.step s later :=
      along_of_forall_mem freshLater s
    have inLine := exec_invariant_along (System.InLine first second)
      (fun _ _ _ inLine meets => inLine.step level different meets.1 meets.2)
      (.begin started before) (freshSteps.and behind) continued
    exact (inLine.leads id).sublist different receivedFirst receivedSecond
  · intro violated
    obtain ⟨early, act, late, middle, next, split, reached, overtakes, taken, remaining⟩ :=
      exists_of_not_along continued violated
    rw [split] at freshLater
    have startedMiddle := exec_invariant_along System.Started
      (fun _ _ _ started actFresh => started.step actFresh) started
      (along_of_forall_mem (fun act member => freshLater act (List.mem_append_left _ member)) s)
      reached
    have freshAct := freshLater act (List.mem_append_right _ List.mem_cons_self)
    have overtaken := exec_invariant_along (System.Overtaken first second)
      (fun _ _ _ overtaken actFresh => overtaken.step different actFresh)
      (.of_overtakes startedMiddle different freshAct (not_not.mp overtakes) taken)
      (along_of_forall_mem (fun act member =>
        freshLater act (List.mem_append_right _ (List.mem_cons_of_mem _ member))) next) remaining
    exact (overtaken.leads id).sublist different.symm receivedSecond receivedFirst

/-- The first message was skipped once in favour of another process's, the second never:
it is stored below the first, which is received first. -/
theorem perChannelFifo_skippedOnce :
    let first : Ticket := ⟨1, .create 1 2 "" .high 2 ""⟩
    let second : Ticket := ⟨2, .create 1 2 "" .high 3 ""⟩
    let acts := [.enter (.create 1 3 "" .high 1 ""), .proceed 0 false, .proceed 0 false,
      .proceed 0 false, .enter first.original, .proceed 0 false, .proceed 0 false,
      .proceed 0 false] ++ List.replicate 10 .dispatch
    let later := [.enter second.original, .proceed 0 false, .proceed 0 false, .proceed 0 false] ++
      List.replicate 5 .dispatch ++ [.start 2, .send 2 1 .low "", .proceed 0 false,
        .proceed 0 false, .proceed 0 false] ++ List.replicate 4 (.run 2) ++
      [.send 2 1 .low "", .proceed 0 false, .proceed 0 false, .proceed 0 false, .run 2, .run 2]
    ∃ s last : System (PriorityQueue.scanned MessageComparator),
      exec System.step (.initial {1, 2, 3}) acts = some s ∧
      exec System.step s later = some last ∧
      [first, second].Sublist ((last.processes 2).received.map Message.ticket) := by
  intro first second acts later
  have reached : (exec (System.step (Q := PriorityQueue.scanned MessageComparator))
      (.initial {1, 2, 3}) acts).any (fun s => decide (System.SentBefore first second s ∧
        Along (System.StoresBehind first second) System.step s later) &&
        (exec System.step s later).any fun last => decide (
          first ∈ (last.processes 2).received.map Message.ticket ∧
          second ∈ (last.processes 2).received.map Message.ticket)) = true := by
    decide +kernel
  obtain ⟨s, run, facts⟩ := (Option.any_eq_true _ _).mp reached
  obtain ⟨here, beyond⟩ := Bool.and_eq_true_iff.mp facts
  obtain ⟨before, behind⟩ := of_decide_eq_true here
  obtain ⟨last, continued, received⟩ := (Option.any_eq_true _ _).mp beyond
  obtain ⟨receivedFirst, receivedSecond⟩ := of_decide_eq_true received
  have fresh : ∀ act ∈ acts ++ later, act.Fresh := by
    decide +kernel
  exact ⟨s, last, run, continued,
    (perChannelFifo fresh run before rfl continued receivedFirst receivedSecond).1 behind⟩

/-- A process sends two messages at the highest priority to another, which receives
after both were delivered: the second comes first, as it was skipped when the first was
picked. -/
theorem fifo_reversed :
    let first : Ticket := ⟨0, .create 1 2 "Hello from P1" .high 1 ""⟩
    let second : Ticket := ⟨1, .create 1 2 "Hello from P1" .high 2 ""⟩
    let acts := [.start 1, .send 1 2 .high "", .proceed 0 false, .proceed 0 false,
      .proceed 0 false] ++ List.replicate 6 (.run 1)
    let later := [.send 1 2 .high "", .proceed 0 false, .proceed 0 false, .proceed 0 false] ++
      List.replicate 10 .dispatch ++ [.start 2, .send 2 1 .low "", .proceed 0 false,
        .proceed 0 false, .proceed 0 false] ++ List.replicate 4 (.run 2) ++
      [.send 2 1 .low "", .proceed 0 false, .proceed 0 false, .proceed 0 false, .run 2, .run 2]
    ∃ s last : System (PriorityQueue.scanned MessageComparator),
      exec System.step (.initial {1, 2}) acts = some s ∧ System.SentBefore first second s ∧
      exec System.step s later = some last ∧
      (last.processes 2).received.map Message.ticket = [second, first] := by
  intro first second acts later
  have reached : (exec (System.step (Q := PriorityQueue.scanned MessageComparator))
      (.initial {1, 2}) acts).any (fun s => decide (System.SentBefore first second s) &&
        (exec System.step s later).any fun last => decide (
          (last.processes 2).received.map Message.ticket = [second, first])) = true := by
    decide +kernel
  obtain ⟨s, run, facts⟩ := (Option.any_eq_true _ _).mp reached
  obtain ⟨before, beyond⟩ := Bool.and_eq_true_iff.mp facts
  obtain ⟨last, continued, received⟩ := (Option.any_eq_true _ _).mp beyond
  exact ⟨s, last, run, of_decide_eq_true before, continued, of_decide_eq_true received⟩

end MessagePassing
