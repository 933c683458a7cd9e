import MessagePassing.Dispatcher.Demotion
import MessagePassing.System.Model

/-! # The dispatcher's loop inside the system

Threads inside `sendMessage` add messages to the scheduler as they were passed, never
skipped (`System.FreshCalls`). Apart from tickets, which are numbered by entering
`sendMessage` here and by the addition there, the scheduler and the aging timer go
through runs of the loop alone (`System.exists_dispatch_run`), so what holds of these
holds in the whole system.
-/

namespace MessagePassing

open Transition

/-- Messages are passed to `sendMessage` as their constructor makes them. -/
def Action.Fresh : Action → Prop
  | .enter msg => msg.agingCounter = 0
  | _ => True

instance : (act : Action) → Decidable act.Fresh
  | .enter msg => inferInstanceAs (Decidable (msg.agingCounter = 0))
  | .generateMessageID => isTrue trivial
  | .start _ => isTrue trivial
  | .stop _ => isTrue trivial
  | .send _ _ _ _ => isTrue trivial
  | .proceed _ _ => isTrue trivial
  | .run _ => isTrue trivial
  | .dispatch => isTrue trivial

namespace System

variable {Q : PriorityQueue (Message Ticket) MessageComparator}
  {s next : System Q} {act : Action}

/-- Messages with threads inside `sendMessage` are as they were passed, never skipped. -/
def FreshCalls (s : System Q) : Prop :=
  ∀ call ∈ s.calls, ∃ serial, ∃ msg : Message Unit,
    call.msg = msg.stamp serial ∧ msg.agingCounter = 0

theorem FreshCalls.nonneg (fresh : s.FreshCalls) {call : SendCall} (member : call ∈ s.calls) :
    0 ≤ call.msg.agingCounter := by
  obtain ⟨serial, msg, same, counter⟩ := fresh call member
  rw [same, Message.stamp_agingCounter, counter]

theorem FreshCalls.step (fresh : s.FreshCalls) (actFresh : act.Fresh)
    (kind : StepKind s act next) : next.FreshCalls := by
  intro call member
  rcases calls_step kind member with ⟨earlier, before, same⟩ | ⟨msg, same, -, origin⟩
  · rw [same]
    exact fresh earlier before
  · refine ⟨_, msg, same, ?_⟩
    rcases origin with rfl | counter
    · exact actFresh
    · exact counter

/-- An order of the pending messages is kept if messages are added behind those put
ahead of them. -/
theorem ordered_step {ahead : Ticket → Ticket → Prop} (ordered : s.scheduler.Ordered ahead)
    (fresh : s.FreshCalls) (kind : StepKind s act next)
    (follows : ∀ call ∈ s.calls, ∀ earlier ∈ s.scheduler.pendingMessages,
      earlier.Precedes ahead call.msg) : next.scheduler.Ordered ahead := by
  rcases scheduler_step kind with ⟨scheduler, -⟩ | ⟨call, member, -, scheduler, -⟩ |
    ⟨scheduler, -⟩ | ⟨msg, -, picked, -⟩
  · rw [scheduler]
    exact ordered
  · rw [scheduler]
    exact ordered.addMessage (fresh.nonneg member) (follows call member)
  · rw [scheduler]
    exact ordered.applyAging
  · exact ordered.getNextMessage picked

theorem FreshCalls.initial (registry : Finset ℤ) : (initial registry : System Q).FreshCalls :=
  fun _ absent => (List.not_mem_nil absent).elim

/-! ## Simulation by the loop -/

end System

/-- What the loop alone has of the dispatcher's position. -/
def DispatcherPoint.dispatchPoint : DispatcherPoint → DispatchPoint
  | .pick => .pick
  | _ => .iteration

namespace System

variable {Q : PriorityQueue (Message Ticket) MessageComparator}
  {s next : System Q} {act : Action} {dispatch : Dispatch}

/-- The loop alone is where the system's dispatcher is, up to tickets. -/
structure Simulates (dispatch : Dispatch) (s : System Q) : Prop where
  scheduler : dispatch.history.scheduler.untracked = s.scheduler.untracked
  agingTimer : dispatch.agingTimer = s.agingTimer
  point : dispatch.point = s.dispatcher.dispatchPoint

theorem Simulates.initial (registry : Finset ℤ) :
    Simulates .initial (initial registry : System Q) := ⟨rfl, rfl, rfl⟩

/-- A step of the system is one of the loop, or none. -/
theorem Simulates.step (simulates : Simulates dispatch s) (fresh : s.FreshCalls)
    (kind : StepKind s act next) :
    ∃ schedule reached, (∀ act ∈ schedule, DispatchAct.Fresh act) ∧
      exec Dispatch.step dispatch schedule = some reached ∧ Simulates reached next := by
  have one {call : DispatchAct} (reached : Dispatch) (callFresh : call.Fresh)
      (taken : dispatch.step call = some reached) (related : Simulates reached next) :
      ∃ schedule reached, (∀ act ∈ schedule, DispatchAct.Fresh act) ∧
        exec Dispatch.step dispatch schedule = some reached ∧ Simulates reached next := by
    refine ⟨[call], reached, fun other member => ?_, exec_cons_eq_some.mpr ⟨_, taken, rfl⟩, related⟩
    exact List.mem_singleton.mp member ▸ callFresh
  have stay (related : Simulates dispatch next) :
      ∃ schedule reached, (∀ act ∈ schedule, DispatchAct.Fresh act) ∧
        exec Dispatch.step dispatch schedule = some reached ∧ Simulates reached next :=
    ⟨[], dispatch, fun _ absent => (List.not_mem_nil absent).elim, rfl, related⟩
  have dispatches : DispatchAct.dispatch.Fresh := trivial
  obtain ⟨scheduler, agingTimer, position⟩ := simulates
  cases kind with
  | queue index front back call split stage =>
      have member : call ∈ s.calls := by
        rw [split]
        exact List.mem_append_right _ List.mem_cons_self
      obtain ⟨serial, msg, same, counter⟩ := fresh call member
      apply one _ (show (DispatchAct.addMessage msg).Fresh from counter) rfl
      refine ⟨?_, agingTimer, position⟩
      simp only [Scheduler.untracked_addMessage, same, Message.untracked_stamp, scheduler]
  | age point due =>
      rw [point] at position
      rw [← agingTimer] at due
      apply one
        { history := { dispatch.history with scheduler := dispatch.history.scheduler.applyAging }
          agingTimer := 0
          point := .pick } dispatches
      · rw [Dispatch.step, position]
        exact if_pos due
      · refine ⟨?_, rfl, rfl⟩
        simp only [Scheduler.untracked_applyAging, scheduler]
  | advance point early =>
      rw [point] at position
      rw [← agingTimer] at early
      apply one { dispatch with agingTimer := dispatch.agingTimer + 1, point := .pick } dispatches
      · rw [Dispatch.step, position]
        exact if_neg (not_le.mpr early)
      · exact ⟨scheduler, congrArg Nat.succ agingTimer, rfl⟩
  | pick msg rest point picked =>
      rw [point] at position
      obtain ⟨out, left, alsoPicked, same⟩ :=
        Scheduler.getNextMessage_of_untracked scheduler picked
      apply one
        { history := { dispatch.history with
            scheduler := left
            returned := dispatch.history.returned ++ [out] }
          agingTimer := dispatch.agingTimer
          point := .iteration } dispatches
      · simp only [Dispatch.step, position, DispatcherPoint.dispatchPoint, History.step, alsoPicked,
          Option.map_some]
      · exact ⟨same, agingTimer, rfl⟩
  | idle point empty =>
      rw [point] at position
      have alsoEmpty := Scheduler.getNextMessage_none_of_untracked scheduler empty
      apply one { dispatch with point := .iteration } dispatches
      · simp only [Dispatch.step, position, DispatcherPoint.dispatchPoint, History.step, alsoEmpty,
          Option.map_none]
      · exact ⟨scheduler, agingTimer, rfl⟩
  | accept msg queue point => exact stay ⟨scheduler, agingTimer, by rw [position, point]; rfl⟩
  | reject msg record point => exact stay ⟨scheduler, agingTimer, by rw [position, point]; rfl⟩
  | discard msg point => exact stay ⟨scheduler, agingTimer, by rw [position, point]; rfl⟩
  | countDelivered msg point => exact stay ⟨scheduler, agingTimer, by rw [position, point]; rfl⟩
  | logDelivered msg record point =>
      exact stay ⟨scheduler, agingTimer, by rw [position, point]; rfl⟩
  | note msg record point =>
      apply stay
      refine ⟨scheduler, agingTimer, ?_⟩
      rcases point with point | point
      · rw [position, point]
        rfl
      · rw [position, point]
        rfl
  | _ => exact stay ⟨scheduler, agingTimer, position⟩

/-- **The loop simulates the system.** In every run of the system in which messages are
passed as their constructor makes them, the scheduler and the aging timer are those of a
run of the loop, up to tickets. -/
theorem exists_dispatch_run {registry : Finset ℤ} {acts : List Action}
    (fresh : ∀ act ∈ acts, act.Fresh)
    (run : exec System.step (.initial registry) acts = some s) :
    ∃ schedule dispatch, (∀ act ∈ schedule, DispatchAct.Fresh act) ∧
      exec Dispatch.step .initial schedule = some dispatch ∧ Simulates dispatch s := by
  obtain ⟨schedule, dispatch, freshSchedule, reached, simulates, -⟩ := exec_simulation
    (fun (s : System Q) dispatch => Simulates dispatch s ∧ s.FreshCalls)
    (fun s act next dispatch related actFresh taken => by
      obtain ⟨schedule, reached, freshSchedule, moved, simulates⟩ :=
        related.1.step related.2 (step_kind taken)
      exact ⟨schedule, reached, freshSchedule, moved, simulates,
        related.2.step actFresh (step_kind taken)⟩)
    ⟨.initial registry, .initial registry⟩ (along_of_forall_mem fresh _) run
  exact ⟨schedule, dispatch, freshSchedule, reached, simulates⟩

/-- A message pending below the highest priority was skipped at most 24 times since it was
added or boosted. -/
theorem agingCounter_le {registry : Finset ℤ} {acts : List Action}
    (fresh : ∀ act ∈ acts, act.Fresh)
    (run : exec System.step (.initial registry) acts = some s) {msg : Message Ticket}
    (pending : msg ∈ s.scheduler.pendingMessages) (below : msg.priority ≠ .high) :
    msg.agingCounter ≤ 24 := by
  obtain ⟨schedule, dispatch, freshSchedule, reached, simulates⟩ := exists_dispatch_run fresh run
  have member : msg.untracked ∈ s.scheduler.untracked.pendingMessages :=
    List.mem_map_of_mem pending
  rw [← simulates.scheduler] at member
  obtain ⟨other, waiting, equal⟩ := List.mem_map.mp member
  have priority : other.priority = msg.priority := by
    rw [← other.untracked_priority, equal, msg.untracked_priority]
  have counter : other.agingCounter = msg.agingCounter := by
    rw [← other.untracked_agingCounter, equal, msg.untracked_agingCounter]
  rw [← counter]
  apply Dispatch.agingCounter_le freshSchedule reached waiting
  rw [priority]
  exact below

end System

end MessagePassing
