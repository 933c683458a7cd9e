import MessagePassing.Scheduler.Order
import MessagePassing.Foundation.Transition
import Mathlib.Data.List.Nodup

/-! # Runs of the scheduler

A run is any sequence of the three scheduler calls from the empty scheduler,
`getNextMessage` counting only when it returns a message. The history beside the
scheduler records the tickets issued to the messages added and the messages
returned. Every ticket issued is pending or returned, once
(`History.Consistent`).
-/

namespace MessagePassing

open Transition

/-- The calls on a scheduler. -/
inductive Call
  | addMessage (msg : Message Unit)
  | getNextMessage
  | applyAging

/-- Messages are added as their constructor makes them, never skipped. -/
def Call.Fresh : Call → Prop
  | .addMessage msg => msg.agingCounter = 0
  | _ => True

instance (call : Call) : Decidable call.Fresh :=
  match call with
  | .addMessage msg => inferInstanceAs (Decidable (msg.agingCounter = 0))
  | .getNextMessage => isTrue trivial
  | .applyAging => isTrue trivial

/-- A scheduler, the tickets issued and the messages returned so far. -/
structure History where
  scheduler : Scheduler Ticket
  issued : List Ticket
  returned : List (Message Ticket)
  deriving DecidableEq

namespace History

def initial : History where
  scheduler := .new
  issued := []
  returned := []

def pending (history : History) : List (Message Ticket) := history.scheduler.pendingMessages

/-- One call; a message added gets the next number. -/
def step (history : History) : Call → Option History
  | .addMessage msg => some
      { scheduler := history.scheduler.addMessage (msg.stamp history.issued.length)
        issued := history.issued ++ [⟨history.issued.length, msg⟩]
        returned := history.returned }
  | .getNextMessage => history.scheduler.getNextMessage.map fun (out, next) =>
      { history with scheduler := next, returned := history.returned ++ [out] }
  | .applyAging => some { history with scheduler := history.scheduler.applyAging }

variable {history next : History} {msg : Message Unit}

theorem step_addMessage (taken : history.step (.addMessage msg) = some next) :
    next.scheduler = history.scheduler.addMessage (msg.stamp history.issued.length) ∧
      next.issued = history.issued ++ [⟨history.issued.length, msg⟩] ∧
      next.returned = history.returned := by
  obtain rfl := Option.some.inj taken
  exact ⟨rfl, rfl, rfl⟩

theorem step_getNextMessage (taken : history.step .getNextMessage = some next) :
    ∃ out, history.scheduler.getNextMessage = some (out, next.scheduler) ∧
      next.issued = history.issued ∧ next.returned = history.returned ++ [out] := by
  obtain ⟨⟨out, rest⟩, picked, rfl⟩ := Option.map_eq_some_iff.mp taken
  exact ⟨out, picked, rfl, rfl⟩

theorem step_applyAging (taken : history.step .applyAging = some next) :
    next.scheduler = history.scheduler.applyAging ∧ next.issued = history.issued ∧
      next.returned = history.returned := by
  obtain rfl := Option.some.inj taken
  exact ⟨rfl, rfl, rfl⟩

/-- Every step is an addition, a successful pick or an aging round. -/
theorem step_cases {call : Call} (taken : history.step call = some next) :
    (∃ msg, call = .addMessage msg ∧
        next.scheduler = history.scheduler.addMessage (msg.stamp history.issued.length) ∧
        next.issued = history.issued ++ [⟨history.issued.length, msg⟩] ∧
        next.returned = history.returned) ∨
      (∃ out, call = .getNextMessage ∧
        history.scheduler.getNextMessage = some (out, next.scheduler) ∧
        next.issued = history.issued ∧ next.returned = history.returned ++ [out]) ∨
      (call = .applyAging ∧ next.scheduler = history.scheduler.applyAging ∧
        next.issued = history.issued ∧ next.returned = history.returned) := by
  cases call with
  | addMessage msg => exact Or.inl ⟨msg, rfl, step_addMessage taken⟩
  | getNextMessage =>
      obtain ⟨out, picked⟩ := step_getNextMessage taken
      exact Or.inr (Or.inl ⟨out, rfl, picked⟩)
  | applyAging => exact Or.inr (Or.inr ⟨rfl, step_applyAging taken⟩)

/-- Every ticket issued is pending or returned, once, on a message that kept what
was sent; tickets are numbered in order. -/
structure Consistent (history : History) : Prop where
  tickets : ((history.returned ++ history.pending).map Message.ticket).Perm history.issued
  serials : history.issued.map Ticket.serial = List.range history.issued.length
  intact : ∀ msg ∈ history.returned ++ history.pending, msg.Intact

theorem Consistent.initial : History.initial.Consistent where
  tickets := List.Perm.refl []
  serials := rfl
  intact _ member := by cases member

theorem Consistent.step {history next : History} {call : Call} (consistent : history.Consistent)
    (taken : history.step call = some next) : next.Consistent := by
  rcases step_cases taken with ⟨msg, -, scheduler, issued, returned⟩ |
    ⟨out, -, picked, issued, returned⟩ | ⟨-, scheduler, issued, returned⟩
  · have pending : next.pending = history.pending ++ [msg.stamp history.issued.length] := by
      rw [History.pending, scheduler]
      rfl
    constructor
    · rw [returned, pending, issued, ← List.append_assoc, List.map_append]
      exact consistent.tickets.append_right _
    · rw [issued, List.map_append, consistent.serials, List.length_append, List.length_singleton,
        List.range_succ]
      rfl
    · intro other member
      rw [returned, pending, ← List.append_assoc] at member
      rcases List.mem_append.mp member with earlier | last
      · exact consistent.intact other earlier
      · exact List.mem_singleton.mp last ▸ msg.intact_stamp _
  · constructor
    · rw [returned, issued, List.append_assoc, List.map_append]
      refine List.Perm.trans ?_ consistent.tickets
      simp only [List.map_append, List.map_cons, List.map_nil]
      exact (Scheduler.pending_tickets_perm picked).symm.append_left _
    · rw [issued]
      exact consistent.serials
    · intro other member
      rw [returned, List.append_assoc] at member
      rcases List.mem_append.mp member with earlier | later
      · exact consistent.intact other (List.mem_append_left _ earlier)
      · rcases List.mem_cons.mp later with rfl | remains
        · exact consistent.intact other
            (List.mem_append_right _ (Scheduler.out_mem picked))
        · obtain ⟨earlier, waited, rfl⟩ := Scheduler.mem_of_mem_next picked remains
          exact (consistent.intact earlier (List.mem_append_right _ waited)).skip
  · have pending : next.pending = history.pending.map Message.age := by
      rw [History.pending, scheduler]
      rfl
    constructor
    · rw [returned, issued, pending, List.map_append, List.map_map]
      have same : Message.ticket ∘ Message.age = (Message.ticket : Message Ticket → Ticket) :=
        funext Message.age_ticket
      rw [same, ← List.map_append]
      exact consistent.tickets
    · rw [issued]
      exact consistent.serials
    · intro other member
      rw [returned, pending] at member
      rcases List.mem_append.mp member with earlier | aged
      · exact consistent.intact other (List.mem_append_left _ earlier)
      · obtain ⟨earlier, waited, rfl⟩ := List.mem_map.mp aged
        exact (consistent.intact earlier (List.mem_append_right _ waited)).age

theorem Consistent.nodup {history : History} (consistent : history.Consistent) :
    ((history.returned ++ history.pending).map Message.ticket).Nodup := by
  refine consistent.tickets.nodup_iff.mpr (List.Nodup.of_map Ticket.serial ?_)
  rw [consistent.serials]
  exact List.nodup_range

/-- A ticket is carried by one message. -/
theorem Consistent.eq_of_ticket {history : History} (consistent : history.Consistent)
    {a b : Message Ticket} (memberA : a ∈ history.returned ++ history.pending)
    (memberB : b ∈ history.returned ++ history.pending) (same : a.ticket = b.ticket) : a = b :=
  List.inj_on_of_nodup_map consistent.nodup memberA memberB same

/-- Tickets in use have numbers below the next one. -/
theorem Consistent.serial_lt {history : History} (consistent : history.Consistent)
    {msg : Message Ticket} (member : msg ∈ history.returned ++ history.pending) :
    msg.ticket.serial < history.issued.length := by
  have issued : msg.ticket ∈ history.issued :=
    consistent.tickets.subset (List.mem_map_of_mem member)
  have numbered := List.mem_map_of_mem (f := Ticket.serial) issued
  rw [consistent.serials] at numbered
  exact List.mem_range.mp numbered

theorem Consistent.pending_serial_lt {history : History} (consistent : history.Consistent)
    {msg : Message Ticket} (member : msg ∈ history.pending) :
    msg.ticket.serial < history.issued.length :=
  consistent.serial_lt (List.mem_append_right _ member)

end History

end MessagePassing
