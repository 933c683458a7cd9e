import MessagePassing.Scheduler.History
import Mathlib.Algebra.BigOperators.Group.List.Basic
import Mathlib.Algebra.Ring.Int.Defs
import Mathlib.Data.List.Forall2

/-! # What the boosts add up to

Every boost raises one message by one level and is counted once, so the count of aging
events is the number of levels by which the messages ever added were raised, whether they
are still pending or were returned (`History.boosts_exec`). Priorities only rise, by one level
in a round, and no message below the highest level keeps a counter at the threshold through
a round (`boostsAccounted`).
-/

namespace MessagePassing

open Transition

namespace Message

/-- The levels by which a message was raised since it was added. -/
def levels (msg : Message Ticket) : ℤ :=
  msg.priority.toInt - msg.ticket.original.priority.toInt

theorem levels_stamp (msg : Message Unit) (serial : ℕ) : (msg.stamp serial).levels = 0 :=
  sub_self _

/-- A boost raises a message by one level. -/
theorem levels_age (msg : Message Ticket) :
    msg.age.levels = msg.levels + if msg.Boosted then 1 else 0 := by
  rw [levels, levels, age_ticket]
  by_cases boosted : msg.Boosted
  · rw [(age_of_boosted boosted).1, if_pos boosted]
    omega
  · rw [age_of_not_boosted boosted, if_neg boosted, add_zero]

end Message

/-- The levels by which several messages were raised. -/
def totalLevels (messages : List (Message Ticket)) : ℤ := (messages.map Message.levels).sum

theorem totalLevels_append (first second : List (Message Ticket)) :
    totalLevels (first ++ second) = totalLevels first + totalLevels second := by
  rw [totalLevels, List.map_append, List.sum_append]
  rfl

theorem totalLevels_singleton (msg : Message Ticket) : totalLevels [msg] = msg.levels :=
  List.sum_singleton

theorem totalLevels_skip (messages : List (Message Ticket)) :
    totalLevels (messages.map Message.skip) = totalLevels messages := by
  rw [totalLevels, List.map_map]
  rfl

/-- A round of aging adds one level for each message it boosts. -/
theorem totalLevels_age (messages : List (Message Ticket)) :
    totalLevels (messages.map Message.age) =
      totalLevels messages + messages.countP fun msg => decide msg.Boosted := by
  induction messages with
  | nil => rfl
  | cons msg rest ih =>
      unfold totalLevels at ih ⊢
      simp only [List.map_cons, List.sum_cons, List.countP_cons, decide_eq_true_eq] at ih ⊢
      rw [ih, msg.levels_age]
      split <;> push_cast <;> omega

section Headroom

variable {ι : Type}

/-- The levels by which a message can still be raised. -/
def Message.headroom (msg : Message ι) : ℕ := (3 - msg.priority.toInt).toNat

theorem Message.headroom_le (msg : Message ι) : msg.headroom ≤ 2 := by
  have level := msg.priority.toInt_bounds.1
  unfold headroom
  omega

/-- A boost uses one level up. -/
theorem Message.headroom_age (msg : Message ι) :
    msg.age.headroom + (if msg.Boosted then 1 else 0) = msg.headroom := by
  by_cases boosted : msg.Boosted
  · have raised := (age_of_boosted boosted).1
    have level := msg.age.priority.toInt_bounds.2
    rw [if_pos boosted, headroom, headroom, raised]
    omega
  · rw [age_of_not_boosted boosted, if_neg boosted, Nat.add_zero]

namespace Scheduler

variable {scheduler next : Scheduler ι} {msg : Message ι}

/-- The boosts counted, and those the pending messages can still get. -/
def boosts (scheduler : Scheduler ι) : ℕ :=
  scheduler.agingEventCount + (scheduler.pendingMessages.map Message.headroom).sum

theorem boosts_addMessage (scheduler : Scheduler ι) (msg : Message ι) :
    (scheduler.addMessage msg).boosts ≤ scheduler.boosts + 2 := by
  have room := msg.headroom_le
  simp only [boosts, addMessage, List.map_append, List.sum_append, List.map_singleton,
    List.sum_singleton]
  omega

/-- Aging counts the boosts it makes. -/
theorem boosts_applyAging (scheduler : Scheduler ι) :
    scheduler.applyAging.boosts = scheduler.boosts := by
  have aged (messages : List (Message ι)) :
      (messages.countP fun msg => decide msg.Boosted) +
        ((messages.map Message.age).map Message.headroom).sum =
          (messages.map Message.headroom).sum := by
    induction messages with
    | nil => rfl
    | cons msg rest ih =>
        have first := msg.headroom_age
        simp only [List.countP_cons, List.map_cons, List.sum_cons, decide_eq_true_eq]
        omega
  rw [boosts, boosts, ← aged scheduler.pendingMessages, ← Nat.add_assoc]
  rfl

theorem boosts_getNextMessage (picked : scheduler.getNextMessage = some (msg, next)) :
    next.boosts ≤ scheduler.boosts := by
  obtain ⟨front, back, split, rest, count, -⟩ := getNextMessage_eq_some picked
  have kept : ((front ++ back).map Message.skip).map Message.headroom =
      (front ++ back).map Message.headroom := List.map_map
  rw [boosts, boosts, rest, count, split, kept]
  simp only [List.map_append, List.map_cons, List.sum_append, List.sum_cons]
  omega

end Scheduler

end Headroom

/-- The message a call adds. -/
def Call.added : Call → Option (Message Unit)
  | .addMessage msg => some msg
  | .getNextMessage => none
  | .applyAging => none

namespace History

variable {history next last : History} {call : Call} {a : Message Ticket}

/-- Every message ever added, as it was returned or as it is now. -/
def messages (history : History) : List (Message Ticket) := history.returned ++ history.pending

/-- The boosts counted are the levels gained. -/
def Boosts (history : History) : Prop :=
  (history.scheduler.agingEventCount : ℤ) = totalLevels history.messages

theorem Boosts.step (boosts : history.Boosts) (taken : history.step call = some next) :
    next.Boosts := by
  unfold Boosts messages pending at boosts ⊢
  rcases step_cases taken with ⟨msg, -, scheduler, -, returned⟩ |
    ⟨out, -, picked, -, returned⟩ | ⟨-, scheduler, -, returned⟩
  · rw [scheduler, returned, Scheduler.addMessage_pendingMessages, ← List.append_assoc,
      totalLevels_append, totalLevels_singleton, Message.levels_stamp, add_zero]
    exact boosts
  · obtain ⟨front, back, split, rest, count, -⟩ := Scheduler.getNextMessage_eq_some picked
    rw [split] at boosts
    rw [count, boosts, returned, rest]
    simp only [totalLevels_append, totalLevels_skip, totalLevels_singleton]
    rw [← List.singleton_append, totalLevels_append, totalLevels_singleton]
    omega
  · rw [scheduler, returned, Scheduler.applyAging_pendingMessages, totalLevels_append,
      totalLevels_age, ← add_assoc, ← totalLevels_append, ← boosts]
    exact Int.natCast_add _ _

theorem boosts_exec {calls : List Call} (run : exec step initial calls = some history) :
    history.Boosts :=
  exec_invariant Boosts (fun _ _ _ => Boosts.step) (show initial.Boosts from rfl) run

/-- A message stays among those added, and its priority does not fall. -/
theorem exists_later_step (taken : history.step call = some next) (member : a ∈ history.messages) :
    ∃ b ∈ next.messages, b.ticket = a.ticket ∧ a.priority.toInt ≤ b.priority.toInt := by
  unfold messages pending at member ⊢
  rcases step_cases taken with ⟨msg, -, scheduler, -, returned⟩ |
    ⟨out, -, picked, -, returned⟩ | ⟨-, scheduler, -, returned⟩
  · refine ⟨a, ?_, rfl, le_rfl⟩
    rw [returned, scheduler, Scheduler.addMessage_pendingMessages, ← List.append_assoc]
    exact List.mem_append_left _ member
  · rw [returned, List.append_assoc]
    rcases List.mem_append.mp member with earlier | waits
    · exact ⟨a, List.mem_append_left _ earlier, rfl, le_rfl⟩
    · rcases Scheduler.eq_or_skip_mem picked waits with rfl | remains
      · exact ⟨a, List.mem_append_right _ List.mem_cons_self, rfl, le_rfl⟩
      · exact ⟨a.skip, List.mem_append_right _ (List.mem_cons_of_mem _ remains), rfl, le_rfl⟩
  · rw [returned, scheduler]
    rcases List.mem_append.mp member with earlier | waits
    · exact ⟨a, List.mem_append_left _ earlier, rfl, le_rfl⟩
    · exact ⟨a.age, List.mem_append_right _ (List.mem_map_of_mem waits), a.age_ticket,
        a.age_priority_bounds.1⟩

theorem exists_later_exec {calls : List Call} (run : exec step history calls = some last)
    (member : a ∈ history.messages) :
    ∃ b ∈ last.messages, b.ticket = a.ticket ∧ a.priority.toInt ≤ b.priority.toInt := by
  refine exec_invariant (fun later : History => ∃ b ∈ later.messages, b.ticket = a.ticket ∧
    a.priority.toInt ≤ b.priority.toInt) ?_ ⟨a, member, rfl, le_rfl⟩ run
  rintro middle call next ⟨b, among, same, above⟩ taken
  obtain ⟨c, amongNext, named, higher⟩ := exists_later_step taken among
  exact ⟨c, amongNext, named.trans same, above.trans higher⟩

/-! ## Runs of calls that may return nothing -/

/-- The history of some calls on a fresh scheduler; a pick that returns `false` changes
nothing. -/
def run (calls : List Call) : History := calls.foldl (attempt step) initial

theorem exists_exec_run (calls : List Call) :
    ∃ schedule, exec step initial schedule = some (run calls) :=
  exists_exec_attempt initial calls

theorem run_append (first second : List Call) :
    run (first ++ second) = second.foldl (attempt step) (run first) := List.foldl_append

/-- More calls go on with a schedule from where the first ended. -/
theorem exists_exec_run_append (first second : List Call) :
    ∃ schedule, exec step (run first) schedule = some (run (first ++ second)) := by
  rw [run_append]
  exact exists_exec_attempt _ second

theorem consistent_of_run (calls : List Call) : (run calls).Consistent := by
  obtain ⟨_, reached⟩ := exists_exec_run calls
  exact exec_invariant Consistent (fun _ _ _ => Consistent.step) Consistent.initial reached

/-- A call issues a ticket for the message it adds. -/
theorem issued_attempt (history : History) (call : Call) :
    (attempt step history call).issued.map Ticket.original =
      history.issued.map Ticket.original ++ call.added.toList := by
  cases call with
  | addMessage msg => exact List.map_append
  | getNextMessage =>
      rw [attempt, Call.added, Option.toList_none, List.append_nil]
      cases taken : history.step .getNextMessage with
      | none => rw [Option.getD_none]
      | some next =>
          obtain ⟨_, -, rfl⟩ := Option.map_eq_some_iff.mp taken
          rw [Option.getD_some]
  | applyAging => exact (List.append_nil _).symm

/-- Tickets are issued for the messages added. -/
theorem issued_run (calls : List Call) :
    (run calls).issued.map Ticket.original = calls.filterMap Call.added := by
  have issued (history : History) : (calls.foldl (attempt step) history).issued.map
      Ticket.original = history.issued.map Ticket.original ++ calls.filterMap Call.added := by
    induction calls generalizing history with
    | nil => exact (List.append_nil _).symm
    | cons call rest ih =>
        rw [List.foldl_cons, ih, issued_attempt, List.append_assoc, List.filterMap_cons]
        cases call.added <;> rfl
  exact issued initial

end History

/-- **Boosts account for the levels gained.** After any calls on a fresh scheduler: the
messages pending or returned are those added, each once; the count of aging events is the
sum of the levels they were raised by; none is below the priority it was added with, or
above the highest; whatever calls follow, none is lowered. A round of aging returns nothing,
raises each pending message by at most one level and leaves each below the highest with a
counter below the threshold. -/
theorem boostsAccounted (calls : List Call) :
    let history := History.run calls
    (history.messages.map fun msg => msg.ticket.original).Perm (calls.filterMap Call.added) ∧
      (history.messages.map Message.ticket).Nodup ∧
      (history.scheduler.agingEventCount : ℤ) = (history.messages.map fun msg =>
        msg.priority.toInt - msg.ticket.original.priority.toInt).sum ∧
      (∀ msg ∈ history.messages, msg.ticket.original.priority.toInt ≤ msg.priority.toInt ∧
        msg.priority.toInt ≤ Priority.high.toInt) ∧
      (∀ later, ∀ a ∈ history.messages, ∃ b ∈ (History.run (calls ++ later)).messages,
        b.ticket = a.ticket ∧ a.priority.toInt ≤ b.priority.toInt) ∧
      let next := History.run (calls ++ [.applyAging])
      next.returned = history.returned ∧
        List.Forall₂ (fun old new => new.ticket = old.ticket ∧
          old.priority.toInt ≤ new.priority.toInt ∧
          new.priority.toInt ≤ old.priority.toInt + 1) history.pending next.pending ∧
        ∀ msg ∈ next.pending, msg.priority ≠ .high →
          msg.agingCounter < Config.agingThreshold := by
  intro history
  obtain ⟨schedule, reached⟩ := History.exists_exec_run calls
  have consistent : history.Consistent := History.consistent_of_run calls
  refine ⟨?_, consistent.nodup, History.boosts_exec reached, fun msg member =>
    ⟨(consistent.intact msg member).priority, msg.priority.toInt_bounds.2⟩,
    fun later a member => ?_, ?_⟩
  · rw [← History.issued_run]
    have originals := consistent.tickets.map Ticket.original
    rwa [List.map_map] at originals
  · obtain ⟨_, further⟩ := History.exists_exec_run_append calls later
    exact History.exists_later_exec further member
  · rw [History.run_append]
    intro next
    have aged : next.pending = history.pending.map Message.age := rfl
    refine ⟨rfl, ?_, ?_⟩
    · rw [aged, List.forall₂_map_right_iff]
      exact List.forall₂_same.mpr fun msg _ => ⟨msg.age_ticket, msg.age_priority_bounds⟩
    · rw [aged]
      intro msg member below
      obtain ⟨old, -, rfl⟩ := List.mem_map.mp member
      exact Message.age_agingCounter_lt below

end MessagePassing
