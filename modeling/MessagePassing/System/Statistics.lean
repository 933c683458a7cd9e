import MessagePassing.System.Accounting
import MessagePassing.System.Conservation
import Mathlib.Data.List.Perm.Subperm

/-! # The statistics of the threads reconcile

The message manager, the logger and the processes count the same messages at
different moments. Each pair of counters differs by the threads between the two
updates: those inside `sendMessage` (`System.SendCounts`), the dispatcher delivering a
message (`System.DeliveryCounts`) and the processes that took one and still test its
ID (`System.ReceiveCounts`). The test takes a message for none if its ID is zero,
which the counter of message IDs yields only after wrapping around
(`System.Issued.ne_zero`).
-/

namespace MessagePassing

open Transition

/-- One while a message is in an inbox and not counted as delivered. -/
def DispatcherPoint.stored : DispatcherPoint → ℕ
  | .countDelivered _ => 1
  | _ => 0

/-- One while a message is counted as delivered and not logged. -/
def DispatcherPoint.unlogged : DispatcherPoint → ℕ
  | .logDelivered _ => 1
  | _ => 0

namespace System

variable {Q : PriorityQueue (Message Ticket) MessageComparator}

/-- The messages that reached an inbox: received, or still in it. -/
def accepted (s : System Q) : ℕ :=
  ∑ id ∈ s.registry, ((s.processes id).received.length + (s.processes id).queue.size)

/-! ## Threads inside `sendMessage` -/

/-- The counters of sends, with the calls between two updates. -/
structure SendCounts (s : System Q) : Prop where
  sent : s.totalSent = s.logger.totalSent + s.logger.totalDropped +
    s.calls.countP fun call => call.stage ≠ .entered
  dropped : s.totalDropped = s.logger.totalDropped +
    s.calls.countP fun call => call.stage = .dropped

theorem SendCounts.of_logger {s next : System Q} (counts : s.SendCounts)
    (logger : s.logger.SameCounts next.logger) (totalSent : next.totalSent = s.totalSent)
    (totalDropped : next.totalDropped = s.totalDropped) (calls : next.calls = s.calls) :
    next.SendCounts where
  sent := by
    rw [totalSent, logger.totalSent, logger.totalDropped, calls]
    exact counts.sent
  dropped := by
    rw [totalDropped, logger.totalDropped, calls]
    exact counts.dropped

theorem SendCounts.enterSend {s : System Q} (counts : s.SendCounts) (msg : Message Unit)
    (owner : Option ℤ) : (s.enterSend msg owner).SendCounts where
  sent := by
    simp only [System.enterSend, List.countP_append, List.countP_singleton, ne_eq,
      not_true_eq_false, decide_false, Bool.false_eq_true, ↓reduceIte, Nat.add_zero]
    exact counts.sent
  dropped := by
    simp only [System.enterSend, List.countP_append, List.countP_singleton, reduceCtorEq,
      decide_false, Bool.false_eq_true, ↓reduceIte, Nat.add_zero]
    exact counts.dropped

theorem SendCounts.step {s next : System Q} {act : Action} (counts : s.SendCounts)
    (taken : s.step act = some next) : next.SendCounts := by
  have kind := step_kind taken
  obtain ⟨sent, dropped⟩ := counts
  cases kind with
  | enter msg => exact SendCounts.enterSend ⟨sent, dropped⟩ msg none
  | send id targetID msgPrio timestamp process =>
      exact SendCounts.enterSend (s := s.generateMessageID.2.setProcess id process)
        ⟨sent, dropped⟩ _ _
  | count index drop front back call split stage =>
      rw [split, countP_middle, stage] at sent dropped
      refine ⟨?_, ?_⟩
      · simp only [countP_middle, ne_eq, reduceCtorEq, not_false_eq_true, not_true_eq_false,
          decide_true, decide_false, Bool.false_eq_true, ↓reduceIte] at sent ⊢
        omega
      · simp only [countP_middle, reduceCtorEq, decide_false, Bool.false_eq_true,
          ↓reduceIte] at dropped ⊢
        omega
  | drop index front back call split stage =>
      rw [split, countP_middle, stage] at sent dropped
      refine ⟨?_, ?_⟩
      · simp only [countP_middle, ne_eq, reduceCtorEq, not_false_eq_true, decide_true,
          ↓reduceIte] at sent ⊢
        omega
      · simp only [countP_middle, reduceCtorEq, decide_true, decide_false, Bool.false_eq_true,
          ↓reduceIte] at dropped ⊢
        omega
  | queue index front back call split stage =>
      rw [split, countP_middle, stage] at sent dropped
      refine ⟨?_, ?_⟩
      · simp only [countP_middle, ne_eq, reduceCtorEq, not_false_eq_true, decide_true,
          ↓reduceIte] at sent ⊢
        omega
      · simp only [countP_middle, reduceCtorEq, decide_false, Bool.false_eq_true,
          ↓reduceIte] at dropped ⊢
        omega
  | finish index drop front back call record split stages =>
      rw [split, countP_middle] at sent dropped
      rcases stages with ⟨stage, event⟩ | ⟨stage, event⟩ <;>
      · refine ⟨?_, ?_⟩
        · simp only [stage, event, Logger.log, ne_eq, reduceCtorEq, not_false_eq_true, decide_true,
            ↓reduceIte] at sent ⊢
          omega
        · simp only [stage, event, Logger.log, reduceCtorEq, decide_true, decide_false,
            Bool.false_eq_true, ↓reduceIte] at dropped ⊢
          omega
  | run id process records ran =>
      exact SendCounts.of_logger ⟨sent, dropped⟩
        (Logger.sameCounts_logAll (Process.run_cases ran).1 _) rfl rfl rfl
  | age =>
      exact SendCounts.of_logger ⟨sent, dropped⟩
        (Logger.sameCounts_logAll (uncounted_agingRecords _) _) rfl rfl rfl
  | reject msg record point registered full uncounted =>
      exact SendCounts.of_logger ⟨sent, dropped⟩ (Logger.sameCounts_log uncounted) rfl rfl rfl
  | logDelivered msg record point event =>
      refine ⟨?_, ?_⟩
      · simp only [Logger.log, event, reduceCtorEq, ↓reduceIte]
        exact sent
      · simp only [Logger.log, event, reduceCtorEq, ↓reduceIte]
        exact dropped
  | note msg record point uncounted =>
      exact SendCounts.of_logger ⟨sent, dropped⟩ (Logger.sameCounts_log uncounted) rfl rfl rfl
  | _ => exact SendCounts.of_logger ⟨sent, dropped⟩ (.refl _) rfl rfl rfl

/-! ## The dispatcher -/

/-- The counters of deliveries, with the message the dispatcher put into an inbox and
has not counted or logged yet. -/
structure DeliveryCounts (s : System Q) : Prop where
  logged : s.totalDelivered = s.logger.totalReceived + s.dispatcher.unlogged
  stored : s.accepted = s.totalDelivered + s.dispatcher.stored

theorem accepted_setProcess {s : System Q} {id : ℤ} {process : Process Q}
    (same : process.received.length + process.queue.size =
      (s.processes id).received.length + (s.processes id).queue.size) :
    (s.setProcess id process).accepted = s.accepted := by
  apply Finset.sum_congr rfl
  intro i _
  by_cases here : i = id
  · subst here
    rw [setProcess_same, same]
  · rw [setProcess_other s process here]

theorem accepted_returnTo (s : System Q) (owner : Option ℤ) :
    ({ s with processes := returnTo s.processes owner } : System Q).accepted = s.accepted := by
  apply Finset.sum_congr rfl
  intro id _
  obtain ⟨queue, received⟩ := returnTo_keeps s.processes owner id
  simp only [queue, received]

theorem accepted_run {s : System Q} {id : ℤ} {process : Process Q} {records : List LogRecord}
    (ran : (s.processes id).run = some (process, records)) :
    (s.setProcess id process).accepted = s.accepted := by
  apply accepted_setProcess
  obtain ⟨-, quiet | ⟨out, receives⟩ | counts⟩ := Process.run_cases ran
  · rw [quiet.received, quiet.queue]
  · rw [receives.received, receives.takes.size, List.length_append, List.length_singleton]
    omega
  · rw [counts.received, counts.queue]

theorem accepted_deliver {s : System Q} {msg : Message Ticket} {queue : MessageQueue Q}
    (registered : msg.receiverID ∈ s.registry)
    (contents : queue.contents = msg ::ₘ (s.processes msg.receiverID).queue.contents) :
    (s.setProcess msg.receiverID { s.processes msg.receiverID with queue := queue }).accepted =
      s.accepted + 1 := by
  have size : queue.size = (s.processes msg.receiverID).queue.size + 1 := by
    rw [← MessageQueue.card_contents, contents, Multiset.card_cons, MessageQueue.card_contents]
  have sum := sum_update registered
    (fun _ process => process.received.length + process.queue.size) s.processes
    { s.processes msg.receiverID with queue := queue }
  have whole := Finset.add_sum_erase s.registry
    (fun i => (s.processes i).received.length + (s.processes i).queue.size) registered
  dsimp only at sum whole
  unfold accepted setProcess
  dsimp only
  omega

theorem DeliveryCounts.step {s next : System Q} {act : Action} (counts : s.DeliveryCounts)
    (taken : s.step act = some next) : next.DeliveryCounts := by
  have kind := step_kind taken
  obtain ⟨logged, stored⟩ := counts
  cases kind with
  | control _ id process _ quiet =>
      refine ⟨logged, ?_⟩
      rw [accepted_setProcess (by rw [quiet.received, quiet.queue])]
      exact stored
  | send id targetID msgPrio timestamp process quiet =>
      refine ⟨logged, ?_⟩
      change (s.generateMessageID.2.setProcess id process).accepted = _
      rw [accepted_setProcess (by rw [quiet.received, quiet.queue]; rfl)]
      exact stored
  | finish index drop front back call record split stages =>
      have unlogged : (s.logger.log record).totalReceived = s.logger.totalReceived := by
        rcases stages with ⟨-, event⟩ | ⟨-, event⟩ <;>
          simp only [Logger.log, event, reduceCtorEq, ↓reduceIte]
      exact ⟨unlogged ▸ logged, (accepted_returnTo s call.owner).trans stored⟩
  | run id process records ran =>
      have logger := Logger.sameCounts_logAll (Process.run_cases ran).1 s.logger
      refine ⟨logger.totalReceived ▸ logged, ?_⟩
      change (s.setProcess id process).accepted = _
      rw [accepted_run ran]
      exact stored
  | age point =>
      have logger := Logger.sameCounts_logAll (uncounted_agingRecords s.scheduler) s.logger
      rw [point] at logged stored
      exact ⟨logger.totalReceived ▸ logged, stored⟩
  | advance point =>
      rw [point] at logged stored
      exact ⟨logged, stored⟩
  | pick msg rest point =>
      rw [point] at logged stored
      exact ⟨logged, stored⟩
  | idle point =>
      rw [point] at logged stored
      exact ⟨logged, stored⟩
  | accept msg queue point registered room contents =>
      rw [point] at logged stored
      refine ⟨logged, ?_⟩
      change (s.setProcess msg.receiverID _).accepted = s.totalDelivered + 1
      rw [accepted_deliver registered contents, stored]
      rfl
  | reject msg record point registered full uncounted =>
      have logger : s.logger.SameCounts (s.logger.log record) := Logger.sameCounts_log uncounted
      rw [point] at logged stored
      exact ⟨logger.totalReceived ▸ logged, stored⟩
  | discard msg point =>
      rw [point] at logged stored
      exact ⟨logged, stored⟩
  | countDelivered msg point =>
      rw [point] at logged stored
      exact ⟨congrArg Nat.succ logged, stored⟩
  | logDelivered msg record point event =>
      rw [point] at logged stored
      refine ⟨?_, stored⟩
      simp only [Logger.log, event, ↓reduceIte]
      exact logged
  | note msg record point uncounted =>
      have logger : s.logger.SameCounts (s.logger.log record) := Logger.sameCounts_log uncounted
      rcases point with point | point <;>
      · rw [point] at logged stored
        exact ⟨logger.totalReceived ▸ logged, stored⟩
  | _ => exact ⟨logged, stored⟩

/-! ## The processes -/

/-- A process inside `sendMessage` waits for its one call there. -/
structure Threads (s : System Q) : Prop where
  sending : ∀ id ∈ s.calls.filterMap SendCall.owner, (s.processes id).point = .sending
  once : (s.calls.filterMap SendCall.owner).Nodup

theorem Threads.initial (registry : Finset ℤ) : (initial registry : System Q).Threads :=
  ⟨fun _ absent => (List.not_mem_nil absent).elim, List.nodup_nil⟩

/-- A process outside `sendMessage` has no call there, so it sends one message after the
other. -/
theorem Threads.no_call {s : System Q} (threads : s.Threads) {id : ℤ}
    (outside : (s.processes id).point ≠ .sending) : id ∉ s.calls.filterMap SendCall.owner :=
  fun member => outside (threads.sending id member)

/-- A process outside `sendMessage` may change. -/
theorem Threads.setProcess {s : System Q} (threads : s.Threads) {id : ℤ}
    (outside : (s.processes id).point ≠ .sending) (process : Process Q) :
    (s.setProcess id process).Threads := by
  refine ⟨fun i member => ?_, threads.once⟩
  have other : i ≠ id := fun same => threads.no_call outside (same ▸ member)
  rw [setProcess_other s process other]
  exact threads.sending i member

theorem Threads.of_owners {s next : System Q} (threads : s.Threads)
    (owners : next.calls.filterMap SendCall.owner = s.calls.filterMap SendCall.owner)
    (points : ∀ id, (next.processes id).point = (s.processes id).point) : next.Threads := by
  refine ⟨fun id member => ?_, owners ▸ threads.once⟩
  rw [points id]
  exact threads.sending id (owners ▸ member)

theorem Threads.step {s next : System Q} {act : Action} (threads : s.Threads)
    (taken : s.step act = some next) : next.Threads := by
  have kind := step_kind taken
  have moved {front back : List SendCall} {call : SendCall}
      (split : s.calls = front ++ call :: back) (stage : SendStage) :
      (front ++ { call with stage := stage } :: back).filterMap SendCall.owner =
        s.calls.filterMap SendCall.owner := by
    rw [split, List.filterMap_append, List.filterMap_append, List.filterMap_cons,
      List.filterMap_cons]
  cases kind with
  | enter msg =>
      refine threads.of_owners ?_ fun _ => rfl
      simp only [enterSend, List.filterMap_append, List.filterMap_cons_none, List.filterMap_nil,
        List.append_nil]
  | control _ id process _ _ outside => exact threads.setProcess outside process
  | send id targetID msgPrio timestamp process quiet outside inside =>
      have free := threads.no_call outside
      have owners : ((s.generateMessageID.2.setProcess id process).enterSend
          ((s.processes id).buildMessage targetID msgPrio s.nextMessageID timestamp)
            (some id)).calls.filterMap SendCall.owner =
          s.calls.filterMap SendCall.owner ++ [id] := by
        simp only [enterSend, List.filterMap_append]
        rfl
      refine ⟨?_, ?_⟩
      · intro i member
        rw [owners] at member
        rcases List.mem_append.mp member with earlier | last
        · have other : i ≠ id := fun same => free (same ▸ earlier)
          change ((s.generateMessageID.2.setProcess id process).processes i).point = _
          rw [setProcess_other _ process other]
          exact threads.sending i earlier
        · rw [List.mem_singleton.mp last]
          change ((s.generateMessageID.2.setProcess id process).processes id).point = _
          rw [setProcess_same]
          exact inside
      · rw [owners]
        exact List.Nodup.append threads.once (List.nodup_singleton id)
          (List.disjoint_singleton.mpr free)
  | count index drop front back call split =>
      exact threads.of_owners (moved split .counted) fun _ => rfl
  | drop index front back call split =>
      exact threads.of_owners (moved split .dropped) fun _ => rfl
  | queue index front back call split =>
      exact threads.of_owners (moved split .queued) fun _ => rfl
  | finish index drop front back call record split stages =>
      have sending := threads.sending
      have once := threads.once
      cases owner : call.owner with
      | none =>
          have owners : (front ++ back).filterMap SendCall.owner =
              s.calls.filterMap SendCall.owner := by
            rw [split, List.filterMap_append, List.filterMap_append, List.filterMap_cons_none owner]
          exact threads.of_owners owners fun _ => rfl
      | some id =>
          rw [split, List.filterMap_append, List.filterMap_cons_some owner] at sending once
          obtain ⟨absent, rest⟩ := List.nodup_cons.mp (List.nodup_middle.mp once)
          refine ⟨fun i member => ?_, ?_⟩
          · change i ∈ (front ++ back).filterMap SendCall.owner at member
            rw [List.filterMap_append] at member
            have other : i ≠ id := fun same => absent (same ▸ member)
            simp only [returnTo, Function.update_of_ne other]
            apply sending i
            rcases List.mem_append.mp member with inFront | inBack
            · exact List.mem_append_left _ inFront
            · exact List.mem_append_right _ (List.mem_cons_of_mem id inBack)
          · change ((front ++ back).filterMap SendCall.owner).Nodup
            rw [List.filterMap_append]
            exact rest
  | run id process records ran =>
      have := threads.setProcess (Process.point_ne_sending_of_run ran) process
      exact ⟨this.sending, this.once⟩
  | accept msg queue point =>
      refine threads.of_owners rfl fun i => ?_
      by_cases here : i = msg.receiverID
      · subst here
        simp only [setProcess_same]
      · simp only [setProcess_other _ _ here]
  | _ => exact threads.of_owners rfl fun _ => rfl

/-- The message IDs taken from the counter so far. -/
structure Issued (s : System Q) : Prop where
  next : s.nextMessageID = Int.bmod (s.issuedIDs.length + 1) (2 ^ 32)
  numbered : ∀ id ∈ s.issuedIDs, ∃ i < s.issuedIDs.length, id = Int.bmod (i + 1) (2 ^ 32)

/-- The counter yields no zero before it wraps around. -/
theorem Issued.ne_zero {s : System Q} (issued : s.Issued) (few : s.issuedIDs.length < 2 ^ 31)
    {id : ℤ} (member : id ∈ s.issuedIDs) : id ≠ 0 := by
  obtain ⟨i, below, same⟩ := issued.numbered id member
  rw [same, Int.bmod_eq_of_le (by omega) (by omega)]
  omega

theorem Issued.step {s next : System Q} {act : Action} (issued : s.Issued)
    (taken : s.step act = some next) : next.Issued := by
  have generated : s.generateMessageID.2.Issued := by
    refine ⟨?_, ?_⟩
    · simp only [generateMessageID, List.length_append, List.length_singleton, issued.next,
        Int.bmod_add_bmod]
      rfl
    · intro id member
      simp only [generateMessageID, List.mem_append, List.mem_singleton] at member
      simp only [generateMessageID, List.length_append, List.length_singleton]
      rcases member with earlier | last
      · obtain ⟨i, below, same⟩ := issued.numbered id earlier
        exact ⟨i, by omega, same⟩
      · refine ⟨s.issuedIDs.length, by omega, ?_⟩
        rw [last, issued.next]
  cases step_kind taken with
  | generate => exact generated
  | send => exact ⟨generated.next, generated.numbered⟩
  | _ => exact ⟨issued.next, issued.numbered⟩

/-- The IDs of the messages sent. -/
def sentIDs (s : System Q) : List ℤ := s.sent.map fun ticket => ticket.original.messageID

/-- An extra caller passes a message with an ID taken from the counter, each ID once. -/
def TakesID (s : System Q) (act : Action) : Prop :=
  ∀ msg, act = .enter msg → msg.messageID ∈ s.issuedIDs ∧ msg.messageID ∉ s.sentIDs

instance (s : System Q) : (act : Action) → Decidable (s.TakesID act)
  | .enter msg => decidable_of_iff (msg.messageID ∈ s.issuedIDs ∧ msg.messageID ∉ s.sentIDs)
      ⟨fun known _ same => Action.enter.inj same ▸ known, fun known => known msg rfl⟩
  | .generateMessageID => isTrue nofun
  | .start _ => isTrue nofun
  | .stop _ => isTrue nofun
  | .send _ _ _ _ => isTrue nofun
  | .proceed _ _ => isTrue nofun
  | .run _ => isTrue nofun
  | .dispatch => isTrue nofun

/-- The messages passed have IDs taken from the counter, no ID more often than it was taken. -/
def KnownIDs (s : System Q) : Prop := s.sentIDs.Subperm s.issuedIDs

theorem sentIDs_append {s next : System Q} {ticket : Ticket}
    (sent : next.sent = s.sent ++ [ticket]) :
    next.sentIDs = s.sentIDs ++ [ticket.original.messageID] := by
  rw [sentIDs, sent, List.map_append, List.map_singleton]
  rfl

theorem KnownIDs.step {s next : System Q} {act : Action} (known : s.KnownIDs)
    (takesID : s.TakesID act) (taken : s.step act = some next) : next.KnownIDs := by
  cases step_kind taken with
  | generate => exact known.trans (List.sublist_append_left _ _).subperm
  | enter msg =>
      obtain ⟨issued, unused⟩ := takesID msg rfl
      rw [KnownIDs, sentIDs_append rfl]
      apply (List.perm_append_singleton _ _).subperm_right.mpr
      exact List.cons_subperm_of_not_mem_of_mem unused issued known
  | send id targetID msgPrio timestamp process =>
      rw [KnownIDs, sentIDs_append rfl]
      exact (List.subperm_append_right _).mpr known
  | _ => exact known

/-- The counters of receives, with the processes still to count a message. -/
def ReceiveCounts (s : System Q) : Prop :=
  ∀ id, (s.processes id).received.length =
    (s.processes id).receivedCount + (s.processes id).owed

theorem ReceiveCounts.setProcess {s : System Q} (counts : s.ReceiveCounts) {id : ℤ}
    {process : Process Q} (here : process.received.length = process.receivedCount + process.owed) :
    (s.setProcess id process).ReceiveCounts := by
  intro i
  by_cases same : i = id
  · subst same
    rw [setProcess_same]
    exact here
  · rw [setProcess_other s process same]
    exact counts i

theorem ReceiveCounts.quiet {s : System Q} (counts : s.ReceiveCounts) {id : ℤ}
    {process : Process Q} (quiet : (s.processes id).Quiet process) :
    (s.setProcess id process).ReceiveCounts := by
  apply counts.setProcess
  rw [quiet.received, quiet.receivedCount, quiet.owed]
  exact counts id

/-- Valid messages are counted one step after they are taken. -/
theorem ReceiveCounts.step {s next : System Q} {act : Action} (counts : s.ReceiveCounts)
    (threads : s.Threads)
    (valid : ∀ id, ∀ msg ∈ (s.processes id).queue.contents, msg.messageID ≠ 0)
    (taken : s.step act = some next) : next.ReceiveCounts := by
  have kind := step_kind taken
  cases kind with
  | control _ id process _ quiet => exact counts.quiet quiet
  | send id targetID msgPrio timestamp process quiet =>
      exact ReceiveCounts.quiet (s := s.generateMessageID.2) counts quiet
  | finish index drop front back call record split stages =>
      cases owner : call.owner with
      | none => exact counts
      | some id =>
          have inside : (s.processes id).point = .sending := by
            apply threads.sending id
            rw [split, List.filterMap_append, List.filterMap_cons_some owner]
            exact List.mem_append_right _ List.mem_cons_self
          have settled : (s.processes id).owed = 0 := by
            rw [Process.owed, inside]
          have before := counts id
          rw [settled] at before
          exact ReceiveCounts.setProcess
            (s := { s with logger := s.logger.log record, calls := front ++ back }) counts before
  | run id process records ran =>
      have before := counts id
      have after : process.received.length = process.receivedCount + process.owed := by
        obtain ⟨-, quiet | ⟨out, receives⟩ | counted⟩ := Process.run_cases ran
        · rw [quiet.received, quiet.receivedCount, quiet.owed]
          exact before
        · rw [receives.before] at before
          rw [receives.received, receives.receivedCount, receives.owed,
            if_pos (valid id out receives.takes.mem), List.length_append, List.length_singleton]
          omega
        · rw [counted.before] at before
          rw [counted.received, counted.receivedCount, counted.owed]
          omega
      exact counts.setProcess after
  | accept msg queue point => exact counts.setProcess (counts msg.receiverID)
  | _ => exact counts

/-! ## All counters -/

/-- What every run keeps in which extra callers take message IDs from the counter. -/
structure Reconciled (s : System Q) : Prop where
  conserved : s.Conserved
  addressed : ∀ id, Addressed s.registry id (s.processes id)
  threads : s.Threads
  issued : s.Issued
  known : s.KnownIDs
  sends : s.SendCounts
  deliveries : s.DeliveryCounts
  receives : s.issuedIDs.length < 2 ^ 31 → s.ReceiveCounts

/-- Messages in inboxes have valid IDs before the counter wraps around. -/
theorem Reconciled.valid {s : System Q} (reconciled : s.Reconciled)
    (few : s.issuedIDs.length < 2 ^ 31) (id : ℤ) (msg : Message Ticket)
    (stored : msg ∈ (s.processes id).queue.contents) : msg.messageID ≠ 0 := by
  have located := mem_located_inbox (reconciled.addressed id) stored
  have ticket := reconciled.conserved.mem_sent located
  rw [(reconciled.conserved.intact _ located).messageID]
  exact reconciled.issued.ne_zero few (reconciled.known.subset (List.mem_map_of_mem ticket))

theorem issuedIDs_step {s next : System Q} {act : Action} (taken : s.step act = some next) :
    s.issuedIDs.length ≤ next.issuedIDs.length := by
  cases step_kind taken with
  | generate => exact (List.length_append ▸ Nat.le_add_right _ _)
  | send => exact (List.length_append ▸ Nat.le_add_right _ _)
  | _ => exact le_rfl

theorem Reconciled.initial (registry : Finset ℤ) :
    (System.initial registry : System Q).Reconciled where
  conserved := .initial registry
  addressed := addressed_initial registry
  threads := .initial registry
  issued := ⟨(by decide : (1 : ℤ) = Int.bmod ((0 : ℕ) + 1) (2 ^ 32)),
    fun _ absent => (List.not_mem_nil absent).elim⟩
  known := List.nil_subperm
  sends := ⟨rfl, rfl⟩
  deliveries := by
    refine ⟨rfl, ?_⟩
    apply Finset.sum_eq_zero
    intro id _
    change 0 + (MessageQueue.new id : MessageQueue Q).size = 0
    rw [MessageQueue.size_new]
  receives _ _ := rfl

theorem Reconciled.step {s next : System Q} {act : Action} (reconciled : s.Reconciled)
    (takesID : s.TakesID act) (taken : s.step act = some next) : next.Reconciled where
  conserved := reconciled.conserved.step taken
  addressed := addressed_step reconciled.addressed taken
  threads := reconciled.threads.step taken
  issued := reconciled.issued.step taken
  known := reconciled.known.step takesID taken
  sends := reconciled.sends.step taken
  deliveries := reconciled.deliveries.step taken
  receives few := by
    have before := (issuedIDs_step taken).trans_lt few
    exact (reconciled.receives before).step reconciled.threads (reconciled.valid before) taken

theorem reconciled_run {registry : Finset ℤ} {acts : List Action} {s : System Q}
    (run : exec System.step (.initial registry) acts = some s)
    (takesIDs : Along TakesID System.step (System.initial registry : System Q) acts) :
    s.Reconciled :=
  exec_invariant_along Reconciled (fun _ _ _ reconciled takesID => reconciled.step takesID)
    (.initial registry) takesIDs run

/-- No thread is between two updates of matching counters: none inside `sendMessage`
has counted its message, the dispatcher has not just delivered one, and no registered
process has one to count. -/
structure Settled (s : System Q) : Prop where
  calls : ∀ call ∈ s.calls, call.stage = .entered
  dispatcher : ∀ msg, s.dispatcher ≠ .countDelivered msg ∧ s.dispatcher ≠ .logDelivered msg
  processes : ∀ id ∈ s.registry, (s.processes id).owed = 0

end System

/-- **The statistics reconcile.** Whenever no thread is between two matching updates,
message IDs come from the counter, each for one message, and fewer than `2 ^ 31` were taken:
messages sent are those logged as sent or dropped, those dropped are those logged as dropped, and
those delivered are those logged as received and those counted by their receivers or
still in the inboxes; and the counters of the threads, which have 32 bits, stay below `2 ^ 31`. -/
theorem statisticsReconcile {Q : PriorityQueue (Message Ticket) MessageComparator}
    {registry : Finset ℤ} {acts : List Action} {s : System Q}
    (run : exec System.step (.initial registry) acts = some s)
    (takesIDs : Along System.TakesID System.step (System.initial registry : System Q) acts)
    (few : s.issuedIDs.length < 2 ^ 31) (settled : s.Settled) :
    s.totalSent = s.logger.totalSent + s.logger.totalDropped ∧
      s.totalDropped = s.logger.totalDropped ∧ s.totalDelivered = s.logger.totalReceived ∧
      s.totalDelivered =
        ∑ id ∈ s.registry, ((s.processes id).receivedCount + (s.processes id).queue.size) ∧
      s.totalDelivered ≤ s.totalSent ∧ s.totalSent < 2 ^ 31 := by
  have reconciled := System.reconciled_run run takesIDs
  have balanced := System.balanced_run run
  have passed := System.passed_run run
  have once := reconciled.known.length_le
  unfold System.Balanced at balanced
  unfold System.Passed at passed
  rw [System.sentIDs, List.length_map] at once
  have uncountedSends : (s.calls.countP fun call => call.stage ≠ .entered) = 0 := by
    apply List.countP_eq_zero.mpr
    intro call member
    simp only [settled.calls call member, ne_eq, not_true_eq_false, decide_false,
      Bool.false_eq_true, not_false_eq_true]
  have uncountedDrops : (s.calls.countP fun call => call.stage = .dropped) = 0 := by
    apply List.countP_eq_zero.mpr
    intro call member
    simp only [settled.calls call member, reduceCtorEq, decide_false, Bool.false_eq_true,
      not_false_eq_true]
  have nothingInHand : s.dispatcher.unlogged = 0 ∧ s.dispatcher.stored = 0 := by
    cases point : s.dispatcher with
    | countDelivered msg => exact absurd point (settled.dispatcher msg).1
    | logDelivered msg => exact absurd point (settled.dispatcher msg).2
    | _ => exact ⟨rfl, rfl⟩
  have counted : s.accepted =
      ∑ id ∈ s.registry, ((s.processes id).receivedCount + (s.processes id).queue.size) := by
    apply Finset.sum_congr rfl
    intro id registered
    rw [reconciled.receives few id, settled.processes id registered, Nat.add_zero]
  have sent := reconciled.sends.sent
  have dropped := reconciled.sends.dropped
  have logged := reconciled.deliveries.logged
  have stored := reconciled.deliveries.stored
  rw [uncountedSends] at sent
  rw [uncountedDrops] at dropped
  rw [nothingInHand.1] at logged
  rw [nothingInHand.2, counted] at stored
  exact ⟨sent, dropped, logged, stored.symm, by omega, by omega⟩

/-- A process sends a message and another caller two, one of which is dropped; the
receiver takes and counts one message and leaves the other in its inbox. -/
theorem statisticsReconcile_oneDropped :
    let acts := [.start 1, .send 1 2 .high "", .proceed 0 false, .proceed 0 false, .proceed 0 false,
      .generateMessageID, .enter (Message.create 1 2 "" .low 2 ""), .proceed 0 false,
      .proceed 0 false, .proceed 0 false, .generateMessageID,
      .enter (Message.create 1 2 "" .low 3 ""), .proceed 0 false, .proceed 0 true,
      .proceed 0 false] ++ List.replicate 10 .dispatch ++
      [.start 2, .send 2 1 .low "", .proceed 0 false, .proceed 0 false, .proceed 0 false, .run 2,
        .run 2, .run 2]
    ∃ s : System (PriorityQueue.scanned MessageComparator),
      exec System.step (.initial {1, 2}) acts = some s ∧ s.totalSent = 4 ∧
      (s.processes 2).receivedCount = 1 ∧ (s.processes 2).queue.size = 1 ∧
      s.totalSent = s.logger.totalSent + s.logger.totalDropped ∧
      s.totalDelivered =
        ∑ id ∈ s.registry, ((s.processes id).receivedCount + (s.processes id).queue.size) := by
  intro acts
  have reached : (exec (System.step (Q := PriorityQueue.scanned MessageComparator))
      (.initial {1, 2}) acts).any (fun s => decide (s.issuedIDs.length < 2 ^ 31 ∧ s.calls = [] ∧
        s.dispatcher = .iteration ∧ (∀ id ∈ s.registry, (s.processes id).owed = 0) ∧
        s.totalSent = 4 ∧ (s.processes 2).receivedCount = 1 ∧
        (s.processes 2).queue.size = 1)) = true := by
    decide +kernel
  have takesIDs : Along System.TakesID System.step
      (System.initial {1, 2} : System (PriorityQueue.scanned MessageComparator)) acts := by
    decide +kernel
  obtain ⟨s, run, facts⟩ := (Option.any_eq_true _ _).mp reached
  obtain ⟨few, returned, between, counted, sent, one, left⟩ := of_decide_eq_true facts
  have settled : s.Settled := by
    constructor
    · rw [returned]
      exact fun _ absent => (List.not_mem_nil absent).elim
    · rw [between]
      exact fun _ => ⟨nofun, nofun⟩
    · exact counted
  have reconcile := statisticsReconcile run takesIDs few settled
  exact ⟨s, run, sent, one, left, reconcile.1, reconcile.2.2.2.1⟩

end MessagePassing
