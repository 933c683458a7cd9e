import MessagePassing.System.Turns

/-! # What each process sends and receives

A process counts each message it passed to `sendMessage`, dropped or not, and in a turn it
takes one message at most out of its inbox, so its counters follow from what was sent in
its name (`System.counted_run`). What a process sends it builds for another
(`System.sent_from`).
-/

namespace MessagePassing

open Transition

variable {Q : PriorityQueue (Message Ticket) MessageComparator}

/-- One while a message is passed to `sendMessage` and not counted. -/
def ProcessPoint.unsent : ProcessPoint → ℕ
  | .sending | .countSent => 1
  | _ => 0

/-- One while a process can still take a message in its turn. -/
def ProcessPoint.receives : ProcessPoint → ℕ
  | .receive | .block | .retry => 1
  | _ => 0

/-- A call from outside the processes in the name of one. -/
def Action.entersAs (id : ℤ) : Action → Bool
  | .enter msg => msg.senderID = id
  | _ => false

/-- A message a process sends. -/
def Action.sendsFrom (id : ℤ) : Action → Bool
  | .send sender _ _ _ => sender = id
  | _ => false

/-- A message a process can build, for the processes registered. -/
structure Message.Built (registry : Finset ℤ) (msg : Message Unit) : Prop where
  sender : msg.senderID ∈ registry
  atLeast : 1 ≤ msg.receiverID
  atMost : msg.receiverID ≤ registry.card
  other : msg.receiverID ≠ msg.senderID
  text : msg.text = "Hello from P" ++ ToString.toString msg.senderID
  agingCounter : msg.agingCounter = 0

namespace System

variable {s next : System Q} {act : Action}

/-- What was passed to `sendMessage` in the name of a process. -/
def sentBy (s : System Q) (id : ℤ) : ℕ := s.sent.countP fun ticket => ticket.original.senderID = id

/-- What a step passes to `sendMessage`. -/
theorem sent_step_cases (taken : s.step act = some next) :
    (∃ msg, act = .enter msg ∧ next.sent = s.sent ++ [⟨s.sent.length, msg⟩]) ∨
      (∃ id targetID msgPrio timestamp, act = .send id targetID msgPrio timestamp ∧
        next.sent = s.sent ++ [⟨s.sent.length,
          (s.processes id).buildMessage targetID msgPrio s.nextMessageID timestamp⟩]) ∨
      next.sent = s.sent ∧ (∀ msg, act ≠ .enter msg) ∧
        ∀ id targetID msgPrio timestamp, act ≠ .send id targetID msgPrio timestamp := by
  cases act with
  | enter msg =>
      obtain rfl := Option.some.inj taken
      exact Or.inl ⟨msg, rfl, rfl⟩
  | send id targetID msgPrio timestamp =>
      exact Or.inr (Or.inl ⟨id, targetID, msgPrio, timestamp, rfl, send_step taken⟩)
  | _ =>
      refine Or.inr (Or.inr ⟨?_, fun _ => Action.noConfusion, fun _ _ _ _ => Action.noConfusion⟩)
      cases step_kind taken <;> rfl

theorem sentBy_append {sent : List Ticket} {ticket : Ticket} (same : next.sent = sent ++ [ticket])
    (id : ℤ) : next.sentBy id = (sent.countP fun ticket => ticket.original.senderID = id) +
      if ticket.original.senderID = id then 1 else 0 := by
  rw [sentBy, same, List.countP_append, List.countP_singleton]
  simp only [decide_eq_true_eq]

/-- A message is passed to `sendMessage` in the name of a process from outside or by the
process itself. -/
theorem sentBy_step (owners : ∀ id, (s.processes id).queue.ownerID = id)
    (taken : s.step act = some next) (id : ℤ) : next.sentBy id = s.sentBy id +
      (if act.entersAs id then 1 else 0) + if act.sendsFrom id then 1 else 0 := by
  rcases sent_step_cases taken with ⟨msg, rfl, sent⟩ |
    ⟨sender, targetID, msgPrio, timestamp, rfl, sent⟩ | ⟨sent, noCall, noSend⟩
  · rw [sentBy_append sent]
    simp only [Action.entersAs, Action.sendsFrom, decide_eq_true_eq]
    rfl
  · rw [sentBy_append sent]
    have name : ((s.processes sender).buildMessage targetID msgPrio s.nextMessageID
        timestamp).senderID = sender := owners sender
    simp only [Action.entersAs, Action.sendsFrom, decide_eq_true_eq, name]
    rfl
  · have outside : act.entersAs id = false := by
      cases act with
      | enter msg => exact absurd rfl (noCall msg)
      | _ => rfl
    have own : act.sendsFrom id = false := by
      cases act with
      | send sender targetID msgPrio timestamp => exact absurd rfl (noSend _ _ _ _)
      | _ => rfl
    rw [sentBy, sent, outside, own]
    rfl

end System

/-- The counters of a process, with its step between two updates. -/
structure Process.Counted (process : Process Q) (sent : ℕ) : Prop where
  sends : process.sentCount + process.point.unsent = sent
  receives : process.received.length + process.point.receives ≤ process.sentCount

/-- Outside `sendMessage` a process keeps its account. -/
theorem Process.Counted.turn {process next : Process Q} {records : List LogRecord} {sent : ℕ}
    (counted : process.Counted sent) (turn : process.Turn next records) : next.Counted sent := by
  obtain ⟨sends, receives⟩ := counted
  cases turn with
  | countSent point =>
      rw [point] at sends receives
      exact ⟨sends, Nat.succ_le_succ receives⟩
  | take out queue point =>
      rw [point] at sends receives
      refine ⟨sends, ?_⟩
      rw [List.length_append]
      exact receives
  | miss point =>
      rw [point] at sends receives
      exact ⟨sends, receives⟩
  | block point =>
      rw [point] at sends receives
      exact ⟨sends, receives⟩
  | retake out queue point =>
      rw [point] at sends receives
      refine ⟨sends, ?_⟩
      rw [List.length_append]
      exact receives
  | giveUp point =>
      rw [point] at sends receives
      exact ⟨sends, (Nat.le_succ _).trans receives⟩
  | unblock out point =>
      rw [point] at sends receives
      exact ⟨sends, receives⟩
  | count out point =>
      rw [point] at sends receives
      exact ⟨sends, receives⟩
  | ignore out point =>
      rw [point] at sends receives
      exact ⟨sends, receives⟩
  | report out point =>
      rw [point] at sends receives
      exact ⟨sends, receives⟩

namespace System

variable {s next : System Q} {act : Action}

/-- A step counts for the process that sends. -/
theorem counted_step {id : ℤ} {sent : ℕ} (threads : s.Threads)
    (counted : (s.processes id).Counted sent) (taken : s.step act = some next) :
    (next.processes id).Counted (sent + if act.sendsFrom id then 1 else 0) := by
  have ⟨sends, receives⟩ := counted
  have moved := processStep taken id
  generalize next.processes id = process at moved
  cases moved with
  | keep apart =>
      have other : act.sendsFrom id = false := by
        cases act with
        | send sender targetID msgPrio timestamp =>
            apply decide_eq_false
            rintro rfl
            exact apart _ _ _ rfl
        | _ => rfl
      rw [other]
      exact counted
  | deliver queue same =>
      subst same
      exact ⟨sends, receives⟩
  | start same point =>
      subst same
      rw [point] at sends receives
      exact ⟨sends, receives⟩
  | stop same point =>
      subst same
      rw [point] at sends receives
      exact ⟨sends, receives⟩
  | send targetID msgPrio timestamp same point =>
      subst same
      rw [point] at sends receives
      refine ⟨?_, receives⟩
      simp only [Action.sendsFrom, decide_true, ↓reduceIte]
      exact congrArg (· + 1) sends
  | finish index drop call same member owner =>
      subst same
      have point := threads.sending id (List.mem_filterMap.mpr ⟨call, member, owner⟩)
      rw [point] at sends receives
      exact ⟨sends, receives⟩
  | run process records same turn =>
      subst same
      exact counted.turn turn

/-- Each process counts what it sent, and takes no more messages than it sent. -/
theorem counted_run {registry : Finset ℤ} {acts : List Action}
    (run : exec System.step (.initial registry) acts = some s) (id : ℤ) :
    (s.processes id).Counted (acts.countP (Action.sendsFrom id)) ∧
      s.sentBy id = acts.countP (Action.entersAs id) + acts.countP (Action.sendsFrom id) := by
  have all := exec_invariant_past
    (fun past t => t.Threads ∧ (∀ i, Addressed t.registry i (t.processes i)) ∧
      (t.processes id).Counted (past.countP (Action.sendsFrom id)) ∧
      t.sentBy id = past.countP (Action.entersAs id) + past.countP (Action.sendsFrom id))
    ?_ ⟨.initial registry, addressed_initial registry, ⟨rfl, le_rfl⟩, rfl⟩ run
  · exact all.2.2
  · rintro past t act next ⟨threads, addressed, counted, sent⟩ taken
    refine ⟨threads.step taken, addressed_step addressed taken, ?_, ?_⟩
    · rw [List.countP_append, List.countP_singleton]
      exact counted_step threads counted taken
    · rw [sentBy_step (fun i => (addressed i).ownerID) taken, sent, List.countP_append,
        List.countP_append, List.countP_singleton, List.countP_singleton]
      omega

/-- A process that is not registered is never started. -/
def Unstarted (s : System Q) : Prop := ∀ id ∉ s.registry, (s.processes id).point = .stopped

theorem Unstarted.step (unstarted : s.Unstarted) (threads : s.Threads)
    (taken : s.step act = some next) : next.Unstarted := by
  intro id absent
  rw [registry_step (step_kind taken)] at absent
  have still := unstarted id absent
  have moved := processStep taken id
  generalize next.processes id = process at moved
  cases moved with
  | keep => exact still
  | deliver => exact still
  | start same point registered => exact absurd registered absent
  | stop => rfl
  | send targetID msgPrio timestamp same point => cases still.symm.trans point
  | finish index drop call same member owner =>
      cases still.symm.trans
        (threads.sending id (List.mem_filterMap.mpr ⟨call, member, owner⟩))
  | run process records same turn => exact absurd still turn.point_ne.1

/-- What was sent came from outside, or a registered process built it for another. -/
theorem sent_from {registry : Finset ℤ} {acts : List Action}
    (run : exec System.step (.initial registry) acts = some s) {ticket : Ticket}
    (sent : ticket ∈ s.sent) :
    .enter ticket.original ∈ acts ∨ ticket.original.Built s.registry := by
  have all := exec_invariant_past
    (fun past t => t.Threads ∧ (∀ i, Addressed t.registry i (t.processes i)) ∧ t.Unstarted ∧
      ∀ ticket ∈ t.sent, .enter ticket.original ∈ past ∨ ticket.original.Built t.registry)
    ?_ ⟨.initial registry, addressed_initial registry, fun _ _ => rfl,
      fun _ absent => (List.not_mem_nil absent).elim⟩ run
  · exact all.2.2.2 ticket sent
  · rintro past t act next ⟨threads, addressed, unstarted, origin⟩ taken
    have kept (ticket : Ticket) (earlier : ticket ∈ t.sent) :
        .enter ticket.original ∈ past ++ [act] ∨ ticket.original.Built next.registry := by
      rw [registry_step (step_kind taken)]
      exact (origin ticket earlier).imp_left (List.mem_append_left [act])
    refine ⟨threads.step taken, addressed_step addressed taken, unstarted.step threads taken,
      fun ticket member => ?_⟩
    rcases sent_step_cases taken with ⟨msg, rfl, more⟩ |
      ⟨id, targetID, msgPrio, timestamp, rfl, more⟩ | ⟨same, -⟩
    · rw [more] at member
      rcases List.mem_append.mp member with earlier | last
      · exact kept ticket earlier
      · rw [List.mem_singleton.mp last]
        exact Or.inl (List.mem_append_right past List.mem_cons_self)
    · rw [more] at member
      rcases List.mem_append.mp member with earlier | last
      · exact kept ticket earlier
      · obtain ⟨sends, atLeast, atMost, other⟩ := exists_send_iff.mp ⟨next, taken⟩
        have registered : id ∈ t.registry := by
          by_contra absent
          cases (unstarted id absent).symm.trans sends
        have ownerID := (addressed id).ownerID
        rw [List.mem_singleton.mp last, registry_step (step_kind taken)]
        refine Or.inr ⟨?_, atLeast, atMost, ?_, rfl, rfl⟩
        · change (t.processes id).queue.ownerID ∈ t.registry
          rw [ownerID]
          exact registered
        · change targetID ≠ (t.processes id).queue.ownerID
          rw [ownerID]
          exact other
    · exact kept ticket (same ▸ member)

end System

/-- **What each process sends and receives.** In every run: a process has counted the messages
it passed to `sendMessage`, but one it is about to count; those sent in its name are these and
the ones from outside; it has taken no more messages out of its inbox than it counted as sent;
and every message sent came from outside or was built by a registered process for another of
the IDs it counts. -/
theorem sendersAccounted {registry : Finset ℤ} {acts : List Action} {s : System Q}
    (run : exec System.step (.initial registry) acts = some s) (id : ℤ) :
    (s.processes id).sentCount + (s.processes id).point.unsent =
        acts.countP (Action.sendsFrom id) ∧
      s.sentBy id = acts.countP (Action.entersAs id) + acts.countP (Action.sendsFrom id) ∧
      (s.processes id).received.length ≤ (s.processes id).sentCount ∧
      ∀ ticket ∈ s.sent, .enter ticket.original ∈ acts ∨ ticket.original.Built s.registry := by
  obtain ⟨counted, named⟩ := System.counted_run run id
  exact ⟨counted.sends, named, (Nat.le_add_right _ _).trans counted.receives,
    fun _ => System.sent_from run⟩

/-- One process sends and counts its message. -/
theorem sendersAccounted_oneSend :
    let acts := [.start 1, .send 1 2 .low "", .proceed 0 false, .proceed 0 false,
      .proceed 0 false, .run 1]
    ∃ s : System (PriorityQueue.scanned MessageComparator),
      exec System.step (.initial {1, 2}) acts = some s ∧ (s.processes 1).sentCount = 1 ∧
      (s.processes 1).sentCount + (s.processes 1).point.unsent =
        acts.countP (Action.sendsFrom 1) ∧
      (s.processes 1).received.length ≤ (s.processes 1).sentCount := by
  intro acts
  have reached : (exec (System.step (Q := PriorityQueue.scanned MessageComparator))
      (.initial {1, 2}) acts).any (fun s => decide ((s.processes 1).sentCount = 1)) = true := by
    decide +kernel
  obtain ⟨s, run, one⟩ := (Option.any_eq_true _ _).mp reached
  obtain ⟨counted, -, received, -⟩ := sendersAccounted run 1
  exact ⟨s, run, of_decide_eq_true one, counted, received⟩

end MessagePassing
