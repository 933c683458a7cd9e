import MessagePassing.System.Model
import Mathlib.Algebra.BigOperators.Group.Finset.Basic
import Mathlib.Tactic.Abel

/-! # Where every message is

At any time a message passed to `sendMessage` is with its sender, dropped, pending,
in the dispatcher's hand, in an inbox, received, rejected or discarded. A step moves
messages between these places without losing, copying or altering one
(`System.located_step`), or adds the message just passed. So the tickets of the
located messages are always those issued, each once (`System.Conserved`).
-/

namespace MessagePassing

open Transition

/-- The places a message can be in. -/
inductive Place
  | sender
  | dropped
  | scheduler
  | dispatcher
  | inbox (id : ℤ)
  | received (id : ℤ)
  | rejected
  | discarded
  deriving DecidableEq

/-- A message at its place. -/
abbrev Located := Place × Message Ticket

/-- A message may change its place and be boosted on the way, and keeps all else. -/
def Moves (before after : Located) : Prop :=
  after.2.ticket = before.2.ticket ∧ before.2.Carries after.2

theorem Moves.refl (entry : Located) : Moves entry entry := ⟨rfl, .refl _⟩

theorem Moves.trans {first second third : Located} (before : Moves first second)
    (after : Moves second third) : Moves first third :=
  ⟨after.1.trans before.1, before.2.trans after.2⟩

/-- The messages of a list at one place. -/
def entries (place : Place) (messages : List (Message Ticket)) : Multiset Located :=
  (messages : Multiset (Message Ticket)).map (Prod.mk place)

/-- A thread inside `sendMessage` holds its message until it drops or queues it. -/
def SendCall.held (call : SendCall) : Multiset Located :=
  match call.stage with
  | .entered | .counted => {(.sender, call.msg)}
  | .dropped | .queued => 0

/-- The message in the dispatcher's hand. -/
def DispatcherPoint.held : DispatcherPoint → Multiset Located
  | .deliver msg => {(.dispatcher, msg)}
  | _ => 0

variable {Q : PriorityQueue (Message Ticket) MessageComparator}

/-- What is in a process's inbox, and what it received. -/
def Process.held (id : ℤ) (process : Process Q) : Multiset Located :=
  process.queue.contents.map (Prod.mk (.inbox id)) + entries (.received id) process.received

namespace System

/-- Every message at its place. -/
def located (s : System Q) : Multiset Located :=
  (s.calls.map SendCall.held).sum + entries .dropped s.dropped +
    entries .scheduler s.scheduler.pendingMessages + s.dispatcher.held +
    ∑ id ∈ s.registry, (s.processes id).held id + entries .rejected s.rejected +
    entries .discarded s.discarded

end System

theorem entries_append (place : Place) (first second : List (Message Ticket)) :
    entries place (first ++ second) = entries place first + entries place second := by
  rw [entries, ← Multiset.coe_add, Multiset.map_add]
  rfl

theorem entries_singleton (place : Place) (msg : Message Ticket) :
    entries place [msg] = {(place, msg)} := rfl

theorem rel_refl (entries : Multiset Located) : Multiset.Rel Moves entries entries :=
  Multiset.rel_refl_of_refl_on fun entry _ => .refl entry

/-- A message moves to another place. -/
theorem rel_singleton (first second : Place) (msg : Message Ticket) :
    Multiset.Rel Moves {(first, msg)} {(second, msg)} :=
  Multiset.Rel.cons ⟨rfl, .refl msg⟩ .zero

/-- The scheduler boosts or skips its messages in place. -/
theorem rel_entries_map (place : Place) {f : Message Ticket → Message Ticket}
    (keeps : ∀ msg, (f msg).ticket = msg.ticket ∧ msg.Carries (f msg))
    (messages : List (Message Ticket)) :
    Multiset.Rel Moves (entries place messages) (entries place (messages.map f)) := by
  rw [entries, entries, ← Multiset.map_coe, Multiset.map_map, Multiset.rel_map]
  exact Multiset.rel_refl_of_refl_on fun msg _ => keeps msg

theorem rel_sum {registry : Finset ℤ} {before after : ℤ → Multiset Located}
    (each : ∀ id, Multiset.Rel Moves (before id) (after id)) :
    Multiset.Rel Moves (∑ id ∈ registry, before id) (∑ id ∈ registry, after id) := by
  induction registry using Finset.induction_on with
  | empty => exact .zero
  | insert id rest absent ih =>
      rw [Finset.sum_insert absent, Finset.sum_insert absent]
      exact (each id).add ih

/-- The sum over the registry when one process changes. -/
theorem sum_update {M : Type*} [AddCommMonoid M] {registry : Finset ℤ} {id : ℤ}
    (registered : id ∈ registry) (value : ℤ → Process Q → M) (processes : ℤ → Process Q)
    (process : Process Q) :
    ∑ i ∈ registry, value i (Function.update processes id process i) =
      value id process + ∑ i ∈ registry.erase id, value i (processes i) := by
  rw [← Finset.add_sum_erase _ _ registered, Function.update_self]
  congr 1
  apply Finset.sum_congr rfl
  intro i member
  rw [Function.update_of_ne (Finset.ne_of_mem_erase member)]

/-- One process changes what it holds only by moves. -/
theorem rel_sum_update {registry : Finset ℤ} {processes : ℤ → Process Q} {id : ℤ}
    {process : Process Q} (change : Multiset.Rel Moves ((processes id).held id) (process.held id)) :
    Multiset.Rel Moves (∑ i ∈ registry, (processes i).held i)
      (∑ i ∈ registry, (Function.update processes id process i).held i) := by
  apply rel_sum
  intro i
  by_cases same : i = id
  · subst same
    rw [Function.update_self]
    exact change
  · rw [Function.update_of_ne same]
    exact rel_refl _

theorem Process.Quiet.held_eq {process next : Process Q} (quiet : process.Quiet next) (id : ℤ) :
    next.held id = process.held id := by
  rw [held, held, quiet.queue, quiet.received]

/-- A step of a process moves at most one message, from its inbox to those it
received. -/
theorem Process.run_held {process next : Process Q} {records : List LogRecord}
    (ran : process.run = some (next, records)) (id : ℤ) :
    Multiset.Rel Moves (process.held id) (next.held id) := by
  obtain ⟨-, quiet | ⟨out, receives⟩ | counts⟩ := run_cases ran
  · rw [quiet.held_eq]
    exact rel_refl _
  · have before : process.held id = {(Place.inbox id, out)} +
        (next.queue.contents.map (Prod.mk (.inbox id)) +
          entries (.received id) process.received) := by
      rw [held, receives.takes.contents, Multiset.map_cons, Multiset.cons_add,
        Multiset.singleton_add]
    have after : next.held id = {(Place.received id, out)} +
        (next.queue.contents.map (Prod.mk (.inbox id)) +
          entries (.received id) process.received) := by
      rw [held, receives.received, entries_append, entries_singleton]
      abel
    rw [before, after]
    exact (rel_singleton _ _ out).add (rel_refl _)
  · rw [held, held, counts.queue, counts.received]
    exact rel_refl _

namespace System

/-- What is not in the dispatcher's hand. -/
def elsewhere (s : System Q) : Multiset Located :=
  (s.calls.map SendCall.held).sum + entries .dropped s.dropped +
    entries .scheduler s.scheduler.pendingMessages +
    ∑ id ∈ s.registry, (s.processes id).held id + entries .rejected s.rejected +
    entries .discarded s.discarded

theorem located_eq (s : System Q) : s.located = s.dispatcher.held + s.elsewhere := by
  unfold located elsewhere
  abel

/-- The dispatcher puts down what it holds. -/
theorem rel_deliver {s next : System Q} {msg : Message Ticket} (place : Place)
    (hand : s.dispatcher = .deliver msg) (released : next.dispatcher.held = 0)
    (put : next.elsewhere = {(place, msg)} + s.elsewhere) :
    Multiset.Rel Moves s.located next.located := by
  rw [located_eq, located_eq next, hand, released, put, zero_add]
  exact (rel_singleton .dispatcher place msg).add (rel_refl _)

/-- Messages change places by moves, part by part. -/
theorem located_rel {s next : System Q}
    (calls : Multiset.Rel Moves (s.calls.map SendCall.held).sum
      (next.calls.map SendCall.held).sum)
    (scheduler : Multiset.Rel Moves (entries .scheduler s.scheduler.pendingMessages)
      (entries .scheduler next.scheduler.pendingMessages))
    (dispatcher : next.dispatcher.held = s.dispatcher.held)
    (processes : Multiset.Rel Moves (∑ id ∈ s.registry, (s.processes id).held id)
      (∑ id ∈ next.registry, (next.processes id).held id))
    (dropped : next.dropped = s.dropped) (rejected : next.rejected = s.rejected)
    (discarded : next.discarded = s.discarded) :
    Multiset.Rel Moves s.located next.located := by
  unfold located
  rw [dispatcher, dropped, rejected, discarded]
  exact (((((calls.add (rel_refl _)).add scheduler).add (rel_refl _)).add processes).add
    (rel_refl _)).add (rel_refl _)

theorem located_setProcess {s : System Q} {id : ℤ} {process : Process Q}
    (same : process.held id = (s.processes id).held id) :
    (s.setProcess id process).located = s.located := by
  have each (i : ℤ) : ((s.setProcess id process).processes i).held i = (s.processes i).held i := by
    by_cases here : i = id
    · subst here
      rw [setProcess_same, same]
    · rw [setProcess_other s process here]
  unfold located
  rw [Finset.sum_congr rfl fun i _ => each i]
  rfl

theorem returnTo_held (processes : ℤ → Process Q) (owner : Option ℤ) (id : ℤ) :
    (returnTo processes owner id).held id = (processes id).held id := by
  obtain ⟨queue, received⟩ := returnTo_keeps processes owner id
  rw [Process.held, Process.held, queue, received]

theorem located_enterSend (s : System Q) (msg : Message Unit) (owner : Option ℤ) :
    (s.enterSend msg owner).located = (.sender, msg.stamp s.sent.length) ::ₘ s.located := by
  unfold located enterSend
  rw [List.map_append, List.sum_append, List.map_singleton, List.sum_singleton,
    ← Multiset.singleton_add]
  change _ + {(Place.sender, msg.stamp s.sent.length)} + _ + _ + _ + _ + _ + _ = _
  abel

theorem calls_sum (front back : List SendCall) (call : SendCall) :
    ((front ++ call :: back).map SendCall.held).sum =
      call.held + ((front.map SendCall.held).sum + (back.map SendCall.held).sum) := by
  rw [List.map_append, List.map_cons, List.sum_append, List.sum_cons]
  abel

theorem SendCall.held_counted {call : SendCall} (stage : call.stage = .counted) :
    call.held = {(.sender, call.msg)} := by
  rw [SendCall.held, stage]

theorem entries_middle (place : Place) (front back : List (Message Ticket))
    (msg : Message Ticket) :
    entries place (front ++ msg :: back) = {(place, msg)} + entries place (front ++ back) := by
  rw [entries_append, entries_append, ← List.singleton_append, entries_append, entries_singleton]
  abel

/-- One message changes its place, beside the rest. -/
theorem rel_move (first second : Place) (msg : Message Ticket) (rest : Multiset Located)
    {before after : Multiset Located} (start : before = {(first, msg)} + rest)
    (stop : after = {(second, msg)} + rest) :
    Multiset.Rel Moves before after := by
  rw [start, stop]
  exact (rel_singleton first second msg).add (rel_refl rest)

/-- **Nothing is lost, copied or altered by a step.** Messages change places, or one
more is with its sender. -/
theorem located_step {s next : System Q} {act : Action} (kind : StepKind s act next) :
    Multiset.Rel Moves s.located next.located ∧ next.sent = s.sent ∨
      ∃ msg, next.located = (.sender, msg.stamp s.sent.length) ::ₘ s.located ∧
        next.sent = s.sent ++ [⟨s.sent.length, msg⟩] := by
  cases kind with
  | generate => exact Or.inl ⟨rel_refl _, rfl⟩
  | enter msg => exact Or.inr ⟨msg, located_enterSend s msg none, rfl⟩
  | control _ id process _ quiet =>
      rw [located_setProcess (quiet.held_eq id)]
      exact Or.inl ⟨rel_refl _, rfl⟩
  | send id targetID msgPrio timestamp process quiet =>
      refine Or.inr ⟨_, ?_, rfl⟩
      rw [located_enterSend, located_setProcess (s := s.generateMessageID.2) (quiet.held_eq id)]
      rfl
  | count index drop front back call split stage =>
      left
      refine ⟨?_, rfl⟩
      refine located_rel ?_ (rel_refl _) rfl (rel_refl _) rfl rfl rfl
      rw [split, calls_sum, calls_sum, SendCall.held, SendCall.held, stage]
      exact rel_refl _
  | drop index front back call split stage =>
      left
      refine ⟨?_, rfl⟩
      apply rel_move .sender .dropped call.msg ((front.map SendCall.held).sum +
        (back.map SendCall.held).sum + entries .dropped s.dropped +
        entries .scheduler s.scheduler.pendingMessages + s.dispatcher.held +
        ∑ id ∈ s.registry, (s.processes id).held id + entries .rejected s.rejected +
        entries .discarded s.discarded)
      · rw [located, split, calls_sum, SendCall.held_counted stage]
        abel
      · rw [located, calls_sum, entries_append, entries_singleton]
        change 0 + _ + _ + _ + _ + _ + _ + _ = _
        abel
  | queue index front back call split stage =>
      left
      refine ⟨?_, rfl⟩
      apply rel_move .sender .scheduler call.msg ((front.map SendCall.held).sum +
        (back.map SendCall.held).sum + entries .dropped s.dropped +
        entries .scheduler s.scheduler.pendingMessages + s.dispatcher.held +
        ∑ id ∈ s.registry, (s.processes id).held id + entries .rejected s.rejected +
        entries .discarded s.discarded)
      · rw [located, split, calls_sum, SendCall.held_counted stage]
        abel
      · rw [located, calls_sum, Scheduler.addMessage_pendingMessages, entries_append,
          entries_singleton]
        change 0 + _ + _ + _ + _ + _ + _ + _ = _
        abel
  | finish index drop front back call record split stages =>
      left
      refine ⟨?_, rfl⟩
      refine located_rel ?_ (rel_refl _) rfl ?_ rfl rfl rfl
      · have released : call.held = 0 := by
          rcases stages with ⟨stage, -⟩ | ⟨stage, -⟩ <;> rw [SendCall.held, stage]
        rw [split, calls_sum, released, zero_add, List.map_append, List.sum_append]
        exact rel_refl _
      · simp only [returnTo_held]
        exact rel_refl _
  | run id process records ran =>
      left
      refine ⟨?_, rfl⟩
      exact located_rel (rel_refl _) (rel_refl _) rfl (rel_sum_update (Process.run_held ran id))
        rfl rfl rfl
  | age point due =>
      left
      refine ⟨?_, rfl⟩
      refine located_rel (rel_refl _) ?_ (by rw [point]; rfl) (rel_refl _) rfl rfl rfl
      exact rel_entries_map _ (fun msg => ⟨msg.age_ticket, msg.carries_age⟩) _
  | advance point early =>
      left
      exact ⟨located_rel (rel_refl _) (rel_refl _) (by rw [point]; rfl) (rel_refl _) rfl rfl rfl,
        rfl⟩
  | pick msg rest point picked =>
      left
      refine ⟨?_, rfl⟩
      obtain ⟨front, back, split, remaining, _⟩ := Scheduler.getNextMessage_eq_some picked
      have rest_eq : entries .scheduler rest.pendingMessages =
          entries .scheduler ((front ++ back).map Message.skip) := by
        rw [remaining]
      have moved := (rel_singleton .scheduler .dispatcher msg).add
        (rel_entries_map .scheduler (fun other => ⟨other.skip_ticket, other.carries_skip⟩)
          (front ++ back))
      rw [← entries_middle, ← split, ← rest_eq] at moved
      rw [located_eq, point]
      change Multiset.Rel Moves (0 + s.elsewhere) _
      convert moved.add (rel_refl ((s.calls.map SendCall.held).sum + entries .dropped s.dropped +
        ∑ id ∈ s.registry, (s.processes id).held id + entries .rejected s.rejected +
        entries .discarded s.discarded)) using 1
      · rw [elsewhere]
        abel
      · rw [located_eq, elsewhere]
        change {(Place.dispatcher, msg)} + _ = _
        abel
  | idle point empty =>
      left
      exact ⟨located_rel (rel_refl _) (rel_refl _) (by rw [point]; rfl) (rel_refl _) rfl rfl rfl,
        rfl⟩
  | accept msg queue point registered room contents ownerID =>
      left
      refine ⟨rel_deliver (.inbox msg.receiverID) point rfl ?_, rfl⟩
      have stored : Process.held msg.receiverID { s.processes msg.receiverID with queue := queue } =
          {(Place.inbox msg.receiverID, msg)} +
            (s.processes msg.receiverID).held msg.receiverID := by
        rw [Process.held, Process.held, contents, Multiset.map_cons, Multiset.cons_add,
          Multiset.singleton_add]
      have sum := sum_update registered (fun i process => process.held i) s.processes
        { s.processes msg.receiverID with queue := queue }
      rw [stored, add_assoc, Finset.add_sum_erase s.registry
        (fun i => (s.processes i).held i) registered] at sum
      unfold elsewhere setProcess
      dsimp only
      rw [sum]
      abel
  | reject msg record point registered full uncounted =>
      left
      refine ⟨rel_deliver .rejected point rfl ?_, rfl⟩
      rw [elsewhere, entries_append, entries_singleton, elsewhere]
      abel
  | discard msg point unregistered =>
      left
      refine ⟨rel_deliver .discarded point rfl ?_, rfl⟩
      rw [elsewhere, entries_append, entries_singleton, elsewhere]
      abel
  | countDelivered msg point =>
      left
      exact ⟨located_rel (rel_refl _) (rel_refl _) (by rw [point]; rfl) (rel_refl _) rfl rfl rfl,
        rfl⟩
  | logDelivered msg record point event =>
      left
      exact ⟨located_rel (rel_refl _) (rel_refl _) (by rw [point]; rfl) (rel_refl _) rfl rfl rfl,
        rfl⟩
  | note msg record point uncounted =>
      left
      refine ⟨located_rel (rel_refl _) (rel_refl _) ?_ (rel_refl _) rfl rfl rfl, rfl⟩
      rcases point with point | point <;> rw [point] <;> rfl

/-- The located messages are those passed to `sendMessage`, each once and unaltered. -/
structure Conserved (s : System Q) : Prop where
  tickets : s.located.map (fun entry => entry.2.ticket) = s.sent
  serials : s.sent.map Ticket.serial = List.range s.sent.length
  intact : ∀ entry ∈ s.located, entry.2.Intact

theorem Conserved.initial (registry : Finset ℤ) : (initial registry : System Q).Conserved := by
  have nothing : (System.initial registry : System Q).located = 0 := by
    have each (id : ℤ) : ((System.initial registry : System Q).processes id).held id = 0 := by
      change (MessageQueue.new id : MessageQueue Q).contents.map _ + 0 = 0
      rw [MessageQueue.contents_new]
      rfl
    unfold located
    rw [Finset.sum_eq_zero fun id _ => each id]
    rfl
  constructor
  · rw [nothing]
    rfl
  · rfl
  · intro entry member
    rw [nothing] at member
    exact absurd member (Multiset.notMem_zero entry)

theorem Conserved.step {s next : System Q} {act : Action} (conserved : s.Conserved)
    (taken : s.step act = some next) : next.Conserved := by
  rcases located_step (step_kind taken) with ⟨moves, sent⟩ | ⟨msg, located, sent⟩
  · constructor
    · rw [sent, ← conserved.tickets]
      exact (Multiset.rel_eq.mp (Multiset.rel_map.mpr
        (moves.mono fun _ _ _ _ move => move.1.symm))).symm
    · rw [sent]
      exact conserved.serials
    · intro entry member
      obtain ⟨before, here, move⟩ :=
        Multiset.exists_mem_of_rel_of_mem (Multiset.rel_flip.mpr moves) member
      have intact := conserved.intact before here
      rw [Message.Intact, move.1]
      exact Message.Carries.trans intact move.2
  · constructor
    · rw [located, sent, Multiset.map_cons, conserved.tickets, ← Multiset.coe_add, add_comm]
      rfl
    · rw [sent, List.map_append, conserved.serials, List.length_append, List.length_singleton,
        List.range_succ]
      rfl
    · intro entry member
      rw [located] at member
      rcases Multiset.mem_cons.mp member with rfl | earlier
      · exact msg.intact_stamp _
      · exact conserved.intact entry earlier

theorem Conserved.nodup {s : System Q} (conserved : s.Conserved) : s.sent.Nodup := by
  apply List.Nodup.of_map Ticket.serial
  rw [conserved.serials]
  exact List.nodup_range

theorem Conserved.mem_sent {s : System Q} (conserved : s.Conserved) {entry : Located}
    (member : entry ∈ s.located) : entry.2.ticket ∈ s.sent := by
  have tickets := Multiset.mem_map_of_mem (fun entry : Located => entry.2.ticket) member
  rw [conserved.tickets] at tickets
  exact tickets

theorem Conserved.eq_of_ticket {s : System Q} (conserved : s.Conserved) {a b : Located}
    (memberA : a ∈ s.located) (memberB : b ∈ s.located) (same : a.2.ticket = b.2.ticket) :
    a = b := by
  have distinct : (s.located.map fun entry => entry.2.ticket).Nodup := by
    rw [conserved.tickets]
    exact Multiset.coe_nodup.mpr conserved.nodup
  exact Multiset.inj_on_of_nodup_map distinct a memberA b memberB same

theorem Conserved.serial_lt {s : System Q} (conserved : s.Conserved) {ticket : Ticket}
    (sent : ticket ∈ s.sent) : ticket.serial < s.sent.length := by
  have numbered := List.mem_map_of_mem (f := Ticket.serial) sent
  rw [conserved.serials] at numbered
  exact List.mem_range.mp numbered

theorem conserved_run {registry : Finset ℤ} {acts : List Action} {s : System Q}
    (run : exec System.step (.initial registry) acts = some s) : s.Conserved :=
  exec_invariant Conserved (fun _ _ _ => Conserved.step) (.initial registry) run

/-- Every message sent before is where it was, or got there by moves. -/
def Descends (s later : System Q) : Prop :=
  ∀ after ∈ later.located, after.2.ticket ∈ s.sent → ∃ before ∈ s.located, Moves before after

theorem Descends.step {s middle next : System Q} {act : Action} (descends : Descends s middle)
    (conserved : middle.Conserved) (older : s.sent ⊆ middle.sent)
    (taken : middle.step act = some next) : Descends s next := by
  intro after member sentBefore
  rcases located_step (step_kind taken) with ⟨moves, sent⟩ | ⟨msg, located, sent⟩
  · obtain ⟨between, here, move⟩ :=
      Multiset.exists_mem_of_rel_of_mem (Multiset.rel_flip.mpr moves) member
    have sentBetween : between.2.ticket ∈ s.sent := by
      rw [← move.1]
      exact sentBefore
    obtain ⟨before, there, earlier⟩ := descends between here sentBetween
    exact ⟨before, there, earlier.trans move⟩
  · rw [located] at member
    rcases Multiset.mem_cons.mp member with rfl | earlier
    · exact absurd (conserved.serial_lt (older sentBefore)) (Nat.lt_irrefl _)
    · exact descends after earlier sentBefore

theorem sent_step {s next : System Q} {act : Action} (taken : s.step act = some next) :
    s.sent ⊆ next.sent := by
  rcases located_step (step_kind taken) with ⟨-, sent⟩ | ⟨msg, -, sent⟩
  · rw [sent]
    exact List.Subset.refl _
  · rw [sent]
    exact List.subset_append_left _ _

theorem descends_run {s later : System Q} {acts : List Action} (conserved : s.Conserved)
    (run : exec System.step s acts = some later) : Descends s later := by
  have kept := exec_invariant
    (fun t : System Q => t.Conserved ∧ s.sent ⊆ t.sent ∧ Descends s t)
    (fun t act next holds taken => ⟨holds.1.step taken,
      List.Subset.trans holds.2.1 (sent_step taken), holds.2.2.step holds.1 holds.2.1 taken⟩)
    ⟨conserved, List.Subset.refl _, fun after member _ => ⟨after, member, .refl after⟩⟩ run
  exact kept.2.2

/-- An inbox is its owner's, messages are held and received by whom they are for only, and
nothing is by a process that is not registered. -/
structure Addressed (registry : Finset ℤ) (id : ℤ) (process : Process Q) : Prop where
  ownerID : process.queue.ownerID = id
  receiverID : ∀ msg ∈ process.queue.contents, msg.receiverID = id
  received : ∀ msg ∈ process.received, msg.receiverID = id
  unregistered : id ∉ registry → process.held id = 0

theorem addressed_step {s next : System Q} {act : Action}
    (addressed : ∀ id, Addressed s.registry id (s.processes id))
    (taken : s.step act = some next) (id : ℤ) :
    Addressed next.registry id (next.processes id) := by
  have kind := step_kind taken
  rw [registry_step kind]
  obtain ⟨ownerID, receiverID, taken, unregistered⟩ := addressed id
  rcases process_step kind id with ⟨queue, received⟩ | ⟨records, -, ran⟩ |
    ⟨msg, stores, here, contents, owner, received⟩
  · refine ⟨queue ▸ ownerID, queue ▸ receiverID, received ▸ taken, fun absent => ?_⟩
    rw [Process.held, queue, received]
    exact unregistered absent
  · obtain ⟨-, quiet | ⟨out, receives⟩ | counts⟩ := Process.run_cases ran
    · refine ⟨quiet.queue ▸ ownerID, quiet.queue ▸ receiverID, quiet.received ▸ taken,
        fun absent => ?_⟩
      rw [quiet.held_eq]
      exact unregistered absent
    · refine ⟨receives.takes.ownerID.trans ownerID, fun msg member => ?_, fun msg member => ?_,
        fun absent => ?_⟩
      · apply receiverID
        rw [receives.takes.contents]
        exact Multiset.mem_cons_of_mem member
      · rw [receives.received] at member
        rcases List.mem_append.mp member with before | last
        · exact taken msg before
        · rw [List.mem_singleton.mp last]
          exact receiverID out receives.takes.mem
      · have empty := unregistered absent
        rw [Process.held, receives.takes.contents, Multiset.map_cons, Multiset.cons_add] at empty
        exact absurd empty (Multiset.cons_ne_zero)
    · refine ⟨counts.queue ▸ ownerID, counts.queue ▸ receiverID, counts.received ▸ taken,
        fun absent => ?_⟩
      rw [Process.held, counts.queue, counts.received]
      exact unregistered absent
  · refine ⟨owner.trans ownerID, fun other member => ?_, received ▸ taken, fun absent =>
      absurd (here ▸ stores.registered) absent⟩
    rw [contents] at member
    rcases Multiset.mem_cons.mp member with rfl | stored
    · exact here
    · exact receiverID other stored

/-- What a process holds is located. -/
theorem held_le_located {s : System Q} {id : ℤ}
    (addressed : Addressed s.registry id (s.processes id)) :
    (s.processes id).held id ≤ s.located := by
  by_cases registered : id ∈ s.registry
  · have part : (s.processes id).held id ≤ ∑ i ∈ s.registry, (s.processes i).held i := by
      rw [← Finset.add_sum_erase s.registry (fun i => (s.processes i).held i) registered]
      exact Multiset.le_add_right _ _
    apply part.trans
    exact ((Multiset.le_add_left _ _).trans (Multiset.le_add_right _ _)).trans
      (Multiset.le_add_right _ _)
  · rw [addressed.unregistered registered]
    exact Multiset.zero_le _

/-- A message in an inbox is located there. -/
theorem mem_located_inbox {s : System Q} {id : ℤ}
    (addressed : Addressed s.registry id (s.processes id)) {msg : Message Ticket}
    (stored : msg ∈ (s.processes id).queue.contents) : (Place.inbox id, msg) ∈ s.located := by
  apply Multiset.mem_of_le (held_le_located addressed)
  exact Multiset.mem_add.mpr (Or.inl (Multiset.mem_map_of_mem _ stored))

/-- A message a process received is located there. -/
theorem mem_located_received {s : System Q} {id : ℤ}
    (addressed : Addressed s.registry id (s.processes id)) {msg : Message Ticket}
    (received : msg ∈ (s.processes id).received) : (Place.received id, msg) ∈ s.located := by
  apply Multiset.mem_of_le (held_le_located addressed)
  exact Multiset.mem_add.mpr (Or.inr (Multiset.mem_map_of_mem _ received))

theorem addressed_initial (registry : Finset ℤ) (id : ℤ) :
    Addressed registry id ((initial registry : System Q).processes id) := by
  refine ⟨rfl, ?_, fun _ absent => absurd absent List.not_mem_nil, fun _ => ?_⟩
  · change ∀ msg ∈ (MessageQueue.new id : MessageQueue Q).contents, _
    rw [MessageQueue.contents_new]
    exact fun msg absent => absurd absent (Multiset.notMem_zero msg)
  · change (MessageQueue.new id : MessageQueue Q).contents.map _ + 0 = 0
    rw [MessageQueue.contents_new]
    rfl

theorem addressed_run {registry : Finset ℤ} {acts : List Action} {s : System Q}
    (run : exec System.step (.initial registry) acts = some s) (id : ℤ) :
    Addressed s.registry id (s.processes id) :=
  exec_invariant (fun t : System Q => ∀ id, Addressed t.registry id (t.processes id))
    (fun _ _ _ => addressed_step) (addressed_initial registry) run id

/-- Messages are discarded for want of a registered receiver only. -/
def DiscardsUnregistered (s : System Q) : Prop :=
  ∀ msg ∈ s.discarded, msg.receiverID ∉ s.registry

theorem DiscardsUnregistered.step {s next : System Q} {act : Action}
    (discards : s.DiscardsUnregistered) (taken : s.step act = some next) :
    next.DiscardsUnregistered := by
  have kind := step_kind taken
  intro msg member
  rw [registry_step kind]
  cases kind with
  | discard other point unregistered =>
      rcases List.mem_append.mp member with earlier | last
      · exact discards msg earlier
      · rw [List.mem_singleton.mp last]
        exact unregistered
  | _ => exact discards msg member

theorem discards_run {registry : Finset ℤ} {acts : List Action} {s : System Q}
    (run : exec System.step (.initial registry) acts = some s) : s.DiscardsUnregistered :=
  exec_invariant DiscardsUnregistered (fun _ _ _ => DiscardsUnregistered.step)
    (fun _ absent => absurd absent List.not_mem_nil) run

/-- The step finds the inbox full for which the dispatcher holds this message. -/
structure Refuses (s : System Q) (act : Action) (msg : Message Ticket) : Prop where
  act : act = .dispatch
  hand : s.dispatcher = .deliver msg
  registered : msg.receiverID ∈ s.registry
  full : Config.maxQueueSize ≤ (s.processes msg.receiverID).queue.size

theorem refuses_step {s next : System Q} {act : Action} {msg : Message Ticket}
    (taken : s.step act = some next) (before : msg ∉ s.rejected) (after : msg ∈ next.rejected) :
    s.Refuses act msg := by
  cases step_kind taken with
  | reject other record point registered full =>
      rcases List.mem_append.mp after with earlier | last
      · exact absurd earlier before
      · obtain rfl := List.mem_singleton.mp last
        exact ⟨rfl, point, registered, full⟩
  | _ => exact absurd after before

/-- Messages are rejected by full inboxes only. -/
theorem rejected_run {registry : Finset ℤ} {acts : List Action} {s : System Q}
    (run : exec System.step (.initial registry) acts = some s) {msg : Message Ticket}
    (rejected : msg ∈ s.rejected) : ∃ (earlier later : List Action) (act : Action)
      (middle : System Q), acts = earlier ++ act :: later ∧
      exec System.step (.initial registry) earlier = some middle ∧ middle.Refuses act msg := by
  obtain ⟨earlier, act, later, middle, next, split, reached, taken, before, after⟩ :=
    exists_step_of_change (fun t : System Q => msg ∈ t.rejected) run List.not_mem_nil rejected
  exact ⟨earlier, later, act, middle, split, reached, refuses_step taken before after⟩

end System

/-- **Message conservation.** In every reachable state: the tickets of the located
messages are those of the messages passed to `sendMessage`, so each of these is in
exactly one place; every copy kept what was sent, its priority not lowered; an inbox
belongs to its process and holds messages addressed to it, and a process received such
messages only; processes that are not registered hold nothing; a message rejected was in
the dispatcher's hand when the inbox of its receiver was full, and the receiver of one
discarded is not registered; a step of the dispatcher changes the inbox of no process but
the receiver of the message in its hand; and in any later state a message sent before
is found as it was, or with its priority raised. -/
theorem messagesConserved {registry : Finset ℤ} {acts : List Action} {s : System Q}
    (run : exec System.step (.initial registry) acts = some s) :
    s.located.map (fun entry => entry.2.ticket) = s.sent ∧
      (∀ ticket ∈ s.sent, ∃! entry, entry ∈ s.located ∧ entry.2.ticket = ticket) ∧
      (∀ entry ∈ s.located, entry.2.Intact) ∧
      (∀ id, (s.processes id).queue.ownerID = id ∧
        ∀ msg ∈ (s.processes id).queue.contents, msg.receiverID = id) ∧
      (∀ id, ∀ msg ∈ (s.processes id).received, msg.receiverID = id) ∧
      (∀ id ∉ s.registry, (s.processes id).held id = 0) ∧
      (∀ msg ∈ s.rejected, ∃ (earlier later : List Action) (middle : System Q),
        acts = earlier ++ .dispatch :: later ∧
        exec System.step (.initial registry) earlier = some middle ∧
        middle.dispatcher = .deliver msg ∧ msg.receiverID ∈ registry ∧
        Config.maxQueueSize ≤ (middle.processes msg.receiverID).queue.size) ∧
      (∀ msg ∈ s.discarded, msg.receiverID ∉ registry) ∧
      (∀ next, s.step .dispatch = some next → ∀ id,
        (∀ msg, s.dispatcher = .deliver msg → msg.receiverID ≠ id) →
          (next.processes id).queue = (s.processes id).queue) ∧
      ∀ later acts, exec System.step s acts = some later →
        ∀ after ∈ later.located, after.2.ticket ∈ s.sent →
          ∃ before ∈ s.located, after.2.ticket = before.2.ticket ∧ before.2.Carries after.2 := by
  have conserved := System.conserved_run run
  have addressed := System.addressed_run run
  refine ⟨conserved.tickets, fun ticket sent => ?_, conserved.intact,
    fun id => ⟨(addressed id).ownerID, (addressed id).receiverID⟩,
    fun id => (addressed id).received, fun id => (addressed id).unregistered,
    fun msg rejected => ?_, ?_, fun next taken id other => ?_,
    fun later acts continued => System.descends_run conserved continued⟩
  · have somewhere : ticket ∈ s.located.map fun entry => entry.2.ticket := by
      rw [conserved.tickets]
      exact sent
    obtain ⟨entry, member, same⟩ := Multiset.mem_map.mp somewhere
    refine ⟨entry, ⟨member, same⟩, fun another found => ?_⟩
    exact conserved.eq_of_ticket found.1 member (found.2.trans same.symm)
  · obtain ⟨earlier, later, act, middle, split, reached, rfl, hand, registered, full⟩ :=
      System.rejected_run run rejected
    have known : middle.registry = registry := System.registry_run reached
    exact ⟨earlier, later, middle, split, reached, hand, known ▸ registered, full⟩
  · have known : s.registry = registry := System.registry_run run
    exact known ▸ System.discards_run run
  · rcases System.process_step (System.step_kind taken) id with ⟨queue, -⟩ | ⟨_, absurdly, -⟩ |
      ⟨msg, stores, here, -⟩
    · exact queue
    · cases absurdly
    · exact absurd here (other msg stores.hand)

/-- A message delivered to its receiver's inbox, and one for nobody discarded. -/
theorem messagesConserved_twoMessages :
    let first := Message.create 1 2 "" .low 1 ""
    let second := Message.create 1 7 "" .low 2 ""
    let acts := [.enter first, .proceed 0 false, .proceed 0 false, .proceed 0 false,
      .enter second, .proceed 0 false, .proceed 0 false] ++ List.replicate 8 .dispatch
    ∃ s : System (PriorityQueue.scanned MessageComparator),
      exec System.step (.initial {1, 2}) acts = some s ∧ s.sent = [⟨0, first⟩, ⟨1, second⟩] ∧
      s.discarded.length = 1 ∧ (s.processes 2).queue.size = 1 ∧
      ∀ ticket ∈ s.sent, ∃! entry, entry ∈ s.located ∧ entry.2.ticket = ticket := by
  intro first second acts
  have reached : (exec (System.step (Q := PriorityQueue.scanned MessageComparator))
      (.initial {1, 2}) acts).any (fun s => decide (s.sent = [⟨0, first⟩, ⟨1, second⟩] ∧
        s.discarded.length = 1 ∧ (s.processes 2).queue.size = 1)) = true := by
    decide +kernel
  obtain ⟨s, run, facts⟩ := (Option.any_eq_true _ _).mp reached
  obtain ⟨sent, discarded, size⟩ := of_decide_eq_true facts
  exact ⟨s, run, sent, discarded, size, (messagesConserved run).2.1⟩

end MessagePassing
