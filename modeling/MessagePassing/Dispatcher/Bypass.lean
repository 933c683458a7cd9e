import MessagePassing.Dispatcher.Loop

/-! # How often the dispatcher can pass a message over

A message is skipped once by every pick that returns another. The aging timer and
the dispatcher's position bound the picks since the last aging round
(`Dispatch.picksSinceAging`), and tie them to the counters: while not yet boosted a
message was skipped at most four times before the last round, since a fifth skip
boosts it there, and once boosted its counter is exactly the number of picks since
(`Dispatch.Phase`). So a message stays below the highest priority for at most 44
skips, or 24 if it was added at medium priority.
-/

namespace MessagePassing

open Transition

namespace Dispatch

/-- The stages of a message of original priority `priority` after `skips` skips,
with `since` picks since the last aging round. -/
inductive Phase (priority : Priority) (skips since : ℕ) (msg : Message Ticket) : Prop
  | unboosted : msg.priority = priority → msg.agingCounter = skips → skips ≤ since + 4 →
      Phase priority skips since msg
  | boosted : msg.priority.toInt = priority.toInt + 1 → msg.agingCounter = since →
      skips ≤ 24 + since → Phase priority skips since msg
  | high : msg.priority = .high → Phase priority skips since msg

variable {priority : Priority} {skips since : ℕ} {msg : Message Ticket}

theorem Phase.skip (phase : Phase priority skips since msg) :
    Phase priority (skips + 1) (since + 1) msg.skip := by
  cases phase with
  | unboosted level counter bound =>
      refine .unboosted level ?_ (by omega)
      rw [Message.skip_agingCounter, counter]
      omega
  | boosted level counter bound =>
      refine .boosted level ?_ (by omega)
      rw [Message.skip_agingCounter, counter]
      omega
  | high level => exact .high level

/-- A whole period of picks leads every boosted message to the highest priority. -/
theorem Phase.age (phase : Phase priority skips agingPeriod msg) :
    Phase priority skips 0 msg.age := by
  cases phase with
  | unboosted level counter bound =>
      rcases msg.age_cases with ⟨raised, reset, reached, _⟩ | ⟨same, kept⟩
      · refine .boosted (by rw [raised, level]) reset ?_
        unfold agingPeriod at bound
        omega
      · rw [same]
        rcases kept with early | top
        · exact .unboosted level counter (by omega)
        · exact .high ((Priority.eq_high_iff _).mpr top)
  | boosted level counter bound =>
      unfold agingPeriod at counter
      have low := priority.toInt_bounds.1
      have top := msg.age.priority.toInt_bounds.2
      rcases msg.age_cases with ⟨raised, _⟩ | ⟨same, kept⟩
      · refine .high ((Priority.eq_high_iff _).mpr ?_)
        omega
      · rw [same]
        refine .high ((Priority.eq_high_iff _).mpr ?_)
        omega
  | high level =>
      rw [Message.age_of_not_boosted fun boosted => boosted.2 level]
      exact .high level

/-- Below the highest priority the skips are bounded. -/
theorem Phase.high_of_skipped (phase : Phase priority skips since msg)
    (bounded : since ≤ agingPeriod)
    (skipped : 44 < skips ∨ priority = .medium ∧ 24 < skips) : msg.priority = .high := by
  unfold agingPeriod at bounded
  cases phase with
  | unboosted _ _ bound => omega
  | boosted level _ bound =>
      rcases skipped with many | ⟨rfl, _⟩
      · omega
      · exact (Priority.eq_high_iff _).mpr level
  | high level => exact level

/-- The message with a ticket issued after `base` returns is in one of its stages. -/
def InPhase (ticket : Ticket) (base : ℕ) (dispatch : Dispatch) : Prop :=
  ∀ msg ∈ dispatch.history.pending, msg.ticket = ticket →
    Phase ticket.original.priority (dispatch.history.returned.length - base)
      dispatch.picksSinceAging msg

/-- What a waiting message's stage depends on along a run. -/
structure Waiting (ticket : Ticket) (base : ℕ) (dispatch : Dispatch) : Prop where
  inPhase : InPhase ticket base dispatch
  issued : ticket.serial < dispatch.history.issued.length
  returned : base ≤ dispatch.history.returned.length
  timer : dispatch.agingTimer < agingPeriod

theorem Waiting.step {ticket : Ticket} {base : ℕ} {dispatch next : Dispatch} {act : DispatchAct}
    (waiting : Waiting ticket base dispatch) (taken : dispatch.step act = some next) :
    Waiting ticket base next := by
  obtain ⟨inPhase, issued, returned, timer⟩ := waiting
  cases step_kind taken with
  | add msg added nextTimer point =>
      obtain ⟨scheduler, tickets, out⟩ := History.step_addMessage added
      refine ⟨fun other member named => ?_, ?_, by rw [out]; exact returned, nextTimer ▸ timer⟩
      · have samePicks : next.picksSinceAging = dispatch.picksSinceAging := by
          simp only [picksSinceAging, nextTimer, point]
        rw [History.pending, scheduler] at member
        rw [out, samePicks]
        rcases List.mem_append.mp member with earlier | last
        · exact inPhase other earlier named
        · rw [List.mem_singleton.mp last] at named
          rw [← named] at issued
          exact absurd issued (Nat.lt_irrefl _)
      · rw [tickets, List.length_append]
        omega
  | advance point same early nextTimer nextPoint =>
      refine ⟨fun msg member named => ?_, same ▸ issued, same ▸ returned, nextTimer ▸ early⟩
      have samePicks : next.picksSinceAging = dispatch.picksSinceAging := by
        simp only [picksSinceAging, nextTimer, point, nextPoint]
      rw [same] at member ⊢
      rw [samePicks]
      exact inPhase msg member named
  | age point aged due nextTimer nextPoint =>
      obtain ⟨scheduler, tickets, out⟩ := History.step_applyAging aged
      refine ⟨fun msg member named => ?_, tickets ▸ issued, out ▸ returned,
        nextTimer ▸ (by decide : (0 : ℕ) < agingPeriod)⟩
      rw [History.pending, scheduler] at member
      obtain ⟨earlier, waited, rfl⟩ := List.mem_map.mp member
      rw [Message.age_ticket] at named
      have phase := inPhase earlier waited named
      have full : dispatch.picksSinceAging = agingPeriod := by
        simp only [picksSinceAging, point]
        omega
      have none : next.picksSinceAging = 0 := by
        simp only [picksSinceAging, nextTimer, nextPoint]
      rw [full] at phase
      rw [out, none]
      exact phase.age
  | pick point picked nextTimer nextPoint =>
      obtain ⟨out, pick, tickets, longer⟩ := History.step_getNextMessage picked
      have count : next.history.returned.length = dispatch.history.returned.length + 1 := by
        rw [longer, List.length_append, List.length_singleton]
      refine ⟨fun msg member named => ?_, tickets ▸ issued, by omega, nextTimer ▸ timer⟩
      obtain ⟨earlier, waited, rfl⟩ := Scheduler.mem_of_mem_next pick member
      have phase := (inPhase earlier waited named).skip
      have more : next.picksSinceAging = dispatch.picksSinceAging + 1 := by
        simp only [picksSinceAging, nextTimer, point, nextPoint]
      rw [count, more, Nat.sub_add_comm returned]
      exact phase
  | idle point empty same nextTimer nextPoint =>
      refine ⟨fun msg member => ?_, same ▸ issued, same ▸ returned, nextTimer ▸ timer⟩
      rw [same, empty] at member
      cases member

theorem Waiting.run {ticket : Ticket} {base : ℕ} {dispatch last : Dispatch}
    {schedule : List DispatchAct} (waiting : Waiting ticket base dispatch)
    (run : exec Dispatch.step dispatch schedule = some last) : Waiting ticket base last :=
  exec_invariant (Waiting ticket base) (fun _ _ _ holds => holds.step) waiting run

/-- A message just added starts unboosted and unskipped. -/
theorem Waiting.add {dispatch next : Dispatch} {msg : Message Unit}
    (consistent : dispatch.history.Consistent) (timer : dispatch.agingTimer < agingPeriod)
    (fresh : msg.agingCounter = 0) (taken : dispatch.step (.addMessage msg) = some next) :
    Waiting ⟨dispatch.history.issued.length, msg⟩ dispatch.history.returned.length next := by
  cases step_kind taken with
  | add msg added nextTimer =>
      obtain ⟨scheduler, tickets, out⟩ := History.step_addMessage added
      refine ⟨fun other member named => ?_, ?_, by rw [out], nextTimer ▸ timer⟩
      · rw [History.pending, scheduler] at member
        rw [out, Nat.sub_self]
        rcases List.mem_append.mp member with earlier | last
        · have below := consistent.pending_serial_lt earlier
          rw [named] at below
          exact absurd below (Nat.lt_irrefl _)
        · rw [List.mem_singleton.mp last]
          exact .unboosted rfl fresh (Nat.zero_le _)
      · rw [tickets, List.length_append]
        exact Nat.lt_succ_self _

end Dispatch

/-- **Bounded bypass.** In any run of the dispatcher's loop with additions anywhere:
a message still pending after more than 44 picks since it was added, or 24 if it was
added at medium priority, each of which returned another message, has the highest
priority. From then on it is returned before anything added later and within as many
picks as there were messages pending, and until then every pick finds a message. -/
theorem boundedBypass {before after final : List DispatchAct} {s t u : Dispatch}
    {n : Message Unit} {m : Message Ticket}
    (fresh : ∀ act ∈ before ++ .addMessage n :: after ++ final, act.Fresh)
    (started : exec Dispatch.step .initial before = some s)
    (waited : exec Dispatch.step s (.addMessage n :: after) = some t)
    (continued : exec Dispatch.step t final = some u)
    (pending : m ∈ t.history.pending) (named : m.ticket = ⟨s.history.issued.length, n⟩)
    (skipped : 44 < t.history.returned.length - s.history.returned.length ∨
      n.priority = .medium ∧ 24 < t.history.returned.length - s.history.returned.length) :
    m.priority = .high ∧ ∃ out, u.history.returned = t.history.returned ++ out ∧
      (History.LeftInTime m.ticket t.history.issued.length t.history.pending.length out ∨
        m.ticket ∈ u.history.pending.map Message.ticket ∧
          (∀ other ∈ out, other.ticket.serial < t.history.issued.length) ∧
          out.length < t.history.pending.length ∧
          ∃ picked, u.history.scheduler.getNextMessage = some picked) := by
  have freshBefore : ∀ act ∈ before, act.Fresh := fun act member =>
    fresh act (List.mem_append_left _ (List.mem_append_left _ member))
  have freshMiddle : ∀ act ∈ DispatchAct.addMessage n :: after, act.Fresh := fun act member =>
    fresh act (List.mem_append_left _ (List.mem_append_right _ member))
  have freshFinal : ∀ act ∈ final, act.Fresh := fun act member =>
    fresh act (List.mem_append_right _ member)
  obtain ⟨next, added, remaining⟩ := exec_cons_eq_some.mp waited
  have waiting := (Dispatch.Waiting.add (Dispatch.started freshBefore started).1
    (Dispatch.agingTimer_lt started) (freshMiddle _ List.mem_cons_self) added).run remaining
  have high : m.priority = .high :=
    (waiting.inPhase m pending named).high_of_skipped (Dispatch.picksSinceAging_le waiting.timer)
      skipped
  have reached := Dispatch.started
    (fun act member => (List.mem_append.mp member).elim (freshBefore act) (freshMiddle act))
    (exec_append_eq_some.mpr ⟨s, started, waited⟩)
  obtain ⟨calls, freshCalls, moved⟩ := Dispatch.exists_history_run freshFinal continued
  obtain ⟨-, out, returned, left | waits⟩ :=
    History.sinceHigh_run reached.1 reached.2 pending high freshCalls moved
  · exact ⟨high, out, returned, Or.inl left⟩
  · obtain ⟨later, member, -⟩ := List.mem_map.mp waits.waiting
    obtain ⟨picked, rest, pick⟩ := Scheduler.exists_getNextMessage member
    exact ⟨high, out, returned, Or.inr ⟨waits.waiting, waits.older,
      waits.length_lt (reached.1.pending_serial_lt pending), _, pick⟩⟩

/-- A medium message passed over 25 times is at the highest priority. -/
theorem boundedBypass_medium :
    let n := Message.create 1 2 "" .medium 1 ""
    let other := Message.create 1 2 "" .high 2 ""
    ∃ t m, exec Dispatch.step .initial (.addMessage n ::
        (List.replicate 26 (.addMessage other) ++ List.replicate 50 .dispatch)) = some t ∧
      m ∈ t.history.pending ∧ m.ticket = ⟨0, n⟩ ∧ t.history.returned.length = 25 ∧
      m.priority = .high := by
  intro n other
  have reached : (exec Dispatch.step .initial (.addMessage n ::
      (List.replicate 26 (.addMessage other) ++ List.replicate 50 .dispatch))).any (fun t =>
        decide ((∃ m ∈ t.history.pending, m.ticket = ⟨0, n⟩) ∧
          t.history.returned.length = 25)) = true := by
    decide +kernel
  obtain ⟨t, run, holds⟩ := (Option.any_eq_true _ _).mp reached
  obtain ⟨⟨m, pending, named⟩, count⟩ := of_decide_eq_true holds
  have fresh : ∀ act ∈ [] ++ .addMessage n ::
      (List.replicate 26 (.addMessage other) ++ List.replicate 50 .dispatch) ++ [],
        DispatchAct.Fresh act := by decide
  have high := (boundedBypass fresh rfl run rfl pending named
    (Or.inr ⟨rfl, by rw [count]; decide⟩)).1
  exact ⟨t, m, run, pending, named, count, high⟩

end MessagePassing
