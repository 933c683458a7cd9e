import MessagePassing.System.Statistics

/-! # The turn of a process

What a step of the system does to one process: nothing, a delivery into its inbox, or the
next step of its loop (`System.processStep`). Inside `sendMessage` a process waits for the
one call it made there (`System.waits_run`).
-/

namespace MessagePassing

open Transition

variable {Q : PriorityQueue (Message Ticket) MessageComparator}

namespace Process

/-- The steps of a process outside `sendMessage`, by where it stands. -/
inductive Turn (process : Process Q) : Process Q → List LogRecord → Prop
  | countSent : process.point = .countSent →
      Turn process { process with sentCount := process.sentCount + 1, point := .receive } []
  | take (out : Message Ticket) (queue : MessageQueue Q) : process.point = .receive →
      process.queue.Takes out queue →
      Turn process { process with
        queue := queue, state := .running, point := .check out
        received := process.received ++ [out] } []
  | miss : process.point = .receive →
      Turn process { process with state := .running, point := .block } []
  | block : process.point = .block →
      Turn process { process with state := .blocked, point := .retry }
        [{ event := .processBlocked
           details := process.getName ++ " is blocking on receive..."
           ticket := none }]
  | retake (out : Message Ticket) (queue : MessageQueue Q) : process.point = .retry →
      process.queue.Takes out queue →
      Turn process { process with
        queue := queue, point := .unblock out
        received := process.received ++ [out] } []
  | giveUp : process.point = .retry → Turn process { process with point := .unblock .default } []
  | unblock (out : Message Ticket) : process.point = .unblock out →
      Turn process { process with state := .running, point := .check out }
        [{ event := .processUnblocked
           details := process.getName ++ " unblocked."
           ticket := none }]
  | count (out : Message Ticket) : process.point = .check out → out.messageID ≠ 0 →
      Turn process { process with
        receivedCount := process.receivedCount + 1
        point := .report out } []
  | ignore (out : Message Ticket) : process.point = .check out → out.messageID = 0 →
      Turn process { process with point := .send } []
  | report (out : Message Ticket) : process.point = .report out →
      Turn process { process with point := .send }
        [{ event := .general
           details := process.getName ++ " processed: " ++ out.toString
           ticket := some out.ticket }]

theorem turn_of_run {process next : Process Q} {records : List LogRecord}
    (ran : process.run = some (next, records)) : process.Turn next records := by
  obtain ⟨queue, state, point, sentCount, receivedCount, received⟩ := process
  cases point with
  | stopped => cases ran
  | send => cases ran
  | sending => cases ran
  | countSent =>
      obtain ⟨rfl, rfl⟩ := Prod.mk.injEq .. ▸ Option.some.inj ran
      exact .countSent rfl
  | receive =>
      obtain ⟨rfl, rfl⟩ := Prod.mk.injEq .. ▸ Option.some.inj ran
      unfold tryReceive
      rcases queue.nonBlockingReceive_cases .default with ⟨-, nothing⟩ |
        ⟨out, rest, received, takes⟩
      · simp only [nothing]
        exact .miss rfl
      · simp only [received]
        exact .take out rest rfl takes
  | block =>
      obtain ⟨rfl, rfl⟩ := Prod.mk.injEq .. ▸ Option.some.inj ran
      exact .block rfl
  | retry =>
      obtain ⟨rfl, rfl⟩ := Prod.mk.injEq .. ▸ Option.some.inj ran
      unfold tryReceive
      rcases queue.nonBlockingReceive_cases .default with ⟨-, nothing⟩ |
        ⟨out, rest, received, takes⟩
      · simp only [nothing]
        exact .giveUp rfl
      · simp only [received]
        exact .retake out rest rfl takes
  | unblock out =>
      obtain ⟨rfl, rfl⟩ := Prod.mk.injEq .. ▸ Option.some.inj ran
      exact .unblock out rfl
  | check out =>
      by_cases valid : out.messageID ≠ 0
      · simp only [run, if_pos valid, Option.some.injEq, Prod.mk.injEq] at ran
        obtain ⟨rfl, rfl⟩ := ran
        exact .count out rfl valid
      · simp only [run, if_neg valid, Option.some.injEq, Prod.mk.injEq] at ran
        obtain ⟨rfl, rfl⟩ := ran
        exact .ignore out rfl (not_not.mp valid)
  | report out =>
      obtain ⟨rfl, rfl⟩ := Prod.mk.injEq .. ▸ Option.some.inj ran
      exact .report out rfl

/-- A process has such a step where it is neither stopped nor sends. -/
theorem Turn.point_ne {process next : Process Q} {records : List LogRecord}
    (turn : process.Turn next records) : process.point ≠ .stopped ∧ process.point ≠ .send := by
  have elsewhere {point : ProcessPoint} (here : process.point = point)
      (running : point ≠ .stopped ∧ point ≠ .send) :
      process.point ≠ .stopped ∧ process.point ≠ .send := here ▸ running
  cases turn with
  | countSent here => exact elsewhere here ⟨ProcessPoint.noConfusion, ProcessPoint.noConfusion⟩
  | take _ _ here => exact elsewhere here ⟨ProcessPoint.noConfusion, ProcessPoint.noConfusion⟩
  | miss here => exact elsewhere here ⟨ProcessPoint.noConfusion, ProcessPoint.noConfusion⟩
  | block here => exact elsewhere here ⟨ProcessPoint.noConfusion, ProcessPoint.noConfusion⟩
  | retake _ _ here => exact elsewhere here ⟨ProcessPoint.noConfusion, ProcessPoint.noConfusion⟩
  | giveUp here => exact elsewhere here ⟨ProcessPoint.noConfusion, ProcessPoint.noConfusion⟩
  | unblock _ here => exact elsewhere here ⟨ProcessPoint.noConfusion, ProcessPoint.noConfusion⟩
  | count _ here => exact elsewhere here ⟨ProcessPoint.noConfusion, ProcessPoint.noConfusion⟩
  | ignore _ here => exact elsewhere here ⟨ProcessPoint.noConfusion, ProcessPoint.noConfusion⟩
  | report _ here => exact elsewhere here ⟨ProcessPoint.noConfusion, ProcessPoint.noConfusion⟩

end Process

namespace System

variable {s next : System Q} {act : Action}

/-- What a step of the system can do to one process. -/
inductive ProcessStep (s : System Q) (act : Action) (id : ℤ) : Process Q → Prop
  | keep : (∀ targetID msgPrio timestamp, act ≠ .send id targetID msgPrio timestamp) →
      act ≠ .run id → ProcessStep s act id (s.processes id)
  | deliver (queue : MessageQueue Q) : act = .dispatch →
      queue.ownerID = (s.processes id).queue.ownerID →
      ProcessStep s act id { s.processes id with queue := queue }
  | start : act = .start id → (s.processes id).point = .stopped → id ∈ s.registry →
      ProcessStep s act id { s.processes id with state := .running, point := .send }
  | stop : act = .stop id → (s.processes id).point = .send →
      ProcessStep s act id { s.processes id with state := .idle, point := .stopped }
  | send (targetID : ℤ) (msgPrio : Priority) (timestamp : String) :
      act = .send id targetID msgPrio timestamp → (s.processes id).point = .send →
      ProcessStep s act id { s.processes id with state := .running, point := .sending }
  | finish (index : ℕ) (drop : Bool) (call : SendCall) : act = .proceed index drop →
      call ∈ s.calls → call.owner = some id →
      ProcessStep s act id { s.processes id with point := .countSent }
  | run (process : Process Q) (records : List LogRecord) : act = .run id →
      (s.processes id).Turn process records → ProcessStep s act id process

theorem processStep (taken : s.step act = some next) (id : ℤ) :
    ProcessStep s act id (next.processes id) := by
  cases act with
  | generateMessageID =>
      obtain rfl := Option.some.inj taken
      exact .keep (fun _ _ _ => Action.noConfusion) Action.noConfusion
  | enter msg =>
      obtain rfl := Option.some.inj taken
      exact .keep (fun _ _ _ => Action.noConfusion) Action.noConfusion
  | start other =>
      rw [step, Option.ite_none_right_eq_some, Option.some.injEq] at taken
      obtain ⟨⟨registered, stopped⟩, rfl⟩ := taken
      by_cases here : id = other
      · subst here
        rw [setProcess_same]
        exact .start rfl stopped registered
      · rw [setProcess_other _ _ here]
        exact .keep (fun _ _ _ => Action.noConfusion) Action.noConfusion
  | stop other =>
      rw [step, Option.ite_none_right_eq_some, Option.some.injEq] at taken
      obtain ⟨sends, rfl⟩ := taken
      by_cases here : id = other
      · subst here
        rw [setProcess_same]
        exact .stop rfl sends
      · rw [setProcess_other _ _ here]
        exact .keep (fun _ _ _ => Action.noConfusion) Action.noConfusion
  | send other targetID msgPrio timestamp =>
      rw [step, Option.ite_none_right_eq_some, Option.some.injEq] at taken
      obtain ⟨⟨sends, -⟩, rfl⟩ := taken
      change ProcessStep s _ id ((s.generateMessageID.2.setProcess other _).processes id)
      by_cases here : id = other
      · subst here
        rw [setProcess_same]
        exact .send targetID msgPrio timestamp rfl sends
      · rw [setProcess_other _ _ here]
        refine .keep (fun _ _ _ same => ?_) Action.noConfusion
        exact here (Action.send.inj same).1.symm
  | proceed index drop =>
      have silent : ProcessStep s (.proceed index drop) id (s.processes id) :=
        .keep (fun _ _ _ => Action.noConfusion) Action.noConfusion
      have finished (call : SendCall) (inside : call ∈ s.calls) :
          ProcessStep s (.proceed index drop) id (returnTo s.processes call.owner id) := by
        cases owner : call.owner with
        | none => exact silent
        | some other =>
            by_cases here : id = other
            · subst here
              simp only [returnTo, Function.update_self]
              exact .finish index drop call rfl inside owner
            · simp only [returnTo, Function.update_of_ne here]
              exact silent
      rw [step, sendMessage] at taken
      cases found : s.calls[index]? with
      | none =>
          rw [found] at taken
          cases taken
      | some call =>
          have inside := List.mem_of_getElem? found
          obtain ⟨msg, stage, owner⟩ := call
          rw [found] at taken
          cases stage with
          | entered =>
              obtain rfl := Option.some.inj taken
              exact silent
          | counted =>
              cases drop <;>
              · obtain rfl := Option.some.inj taken
                exact silent
          | dropped =>
              obtain rfl := Option.some.inj taken
              exact finished _ inside
          | queued =>
              obtain rfl := Option.some.inj taken
              exact finished _ inside
  | run other =>
      obtain ⟨⟨process, records⟩, ran, rfl⟩ := Option.map_eq_some_iff.mp taken
      by_cases here : id = other
      · subst here
        change ProcessStep s _ id ((s.setProcess id process).processes id)
        rw [setProcess_same]
        exact .run process records rfl (Process.turn_of_run ran)
      · change ProcessStep s _ id ((s.setProcess other process).processes id)
        rw [setProcess_other _ _ here]
        refine .keep (fun _ _ _ => Action.noConfusion) fun same => ?_
        exact here (Action.run.inj same).symm
  | dispatch =>
      cases step_kind taken with
      | control _ _ _ different => exact absurd rfl different
      | accept msg queue point registered room contents ownerID =>
          by_cases here : id = msg.receiverID
          · subst here
            simp only [setProcess_same]
            exact .deliver queue rfl ownerID
          · simp only [setProcess_other _ _ here]
            exact .keep (fun _ _ _ => Action.noConfusion) Action.noConfusion
      | _ => exact .keep (fun _ _ _ => Action.noConfusion) Action.noConfusion

/-- A step makes a process wait inside `sendMessage` only with a call of its own. -/
theorem owner_of_send {id targetID : ℤ} {msgPrio : Priority} {timestamp : String}
    (taken : s.step (.send id targetID msgPrio timestamp) = some next) :
    id ∈ next.calls.filterMap SendCall.owner := by
  rw [step, Option.ite_none_right_eq_some, Option.some.injEq] at taken
  obtain ⟨-, rfl⟩ := taken
  simp only [enterSend, List.filterMap_append]
  exact List.mem_append_right _ List.mem_cons_self

/-- A process has its call until it goes on to count its message. -/
theorem owner_step (kind : StepKind s act next) {id : ℤ}
    (inside : id ∈ s.calls.filterMap SendCall.owner) :
    id ∈ next.calls.filterMap SendCall.owner ∨ (next.processes id).point = .countSent := by
  have advanced {front back : List SendCall} {call : SendCall}
      (split : s.calls = front ++ call :: back) (stage : SendStage) :
      id ∈ (front ++ { call with stage := stage } :: back).filterMap SendCall.owner := by
    rw [split, List.filterMap_append, List.filterMap_cons] at inside
    rw [List.filterMap_append, List.filterMap_cons]
    exact inside
  cases kind with
  | enter msg =>
      simp only [enterSend, List.filterMap_append]
      exact Or.inl (List.mem_append_left _ inside)
  | send other targetID msgPrio timestamp process =>
      simp only [enterSend, List.filterMap_append]
      exact Or.inl (List.mem_append_left _ inside)
  | count index drop front back call split => exact Or.inl (advanced split .counted)
  | drop index front back call split => exact Or.inl (advanced split .dropped)
  | queue index front back call split => exact Or.inl (advanced split .queued)
  | finish index drop front back call record split =>
      rw [split] at inside
      obtain ⟨held, member, owned⟩ := List.mem_filterMap.mp inside
      rcases List.mem_cons.mp (List.perm_middle.mem_iff.mp member) with rfl | elsewhere
      · right
        rw [owned]
        simp only [returnTo, Function.update_self]
      · exact Or.inl (List.mem_filterMap.mpr ⟨held, elsewhere, owned⟩)
  | _ => exact Or.inl inside

/-- A process inside `sendMessage` has a call there. -/
def Waits (s : System Q) : Prop :=
  ∀ id, (s.processes id).point = .sending → id ∈ s.calls.filterMap SendCall.owner

theorem Waits.step (waits : s.Waits) (taken : s.step act = some next) : next.Waits := by
  intro id sending
  have kept (before : (s.processes id).point = .sending) :
      id ∈ next.calls.filterMap SendCall.owner := by
    rcases owner_step (step_kind taken) (waits id before) with inside | counts
    · exact inside
    · cases counts.symm.trans sending
  have moved := processStep taken id
  generalize next.processes id = process at moved sending
  cases moved with
  | keep => exact kept sending
  | deliver => exact kept sending
  | start => cases sending
  | stop => cases sending
  | send targetID msgPrio timestamp same =>
      rw [same] at taken
      exact owner_of_send taken
  | finish => cases sending
  | run process records _ turn =>
      cases turn <;> cases sending

theorem waits_run {registry : Finset ℤ} {acts : List Action}
    (run : exec System.step (.initial registry) acts = some s) : s.Waits :=
  exec_invariant Waits (fun _ _ _ waits taken => waits.step taken)
    (fun _ sending => ProcessPoint.noConfusion sending) run

/-- A thread inside `sendMessage` can always go on. -/
theorem exists_proceed {call : SendCall} (inside : call ∈ s.calls) (drop : Bool) :
    ∃ index next, s.step (.proceed index drop) = some next := by
  obtain ⟨index, found⟩ := List.mem_iff_getElem?.mp inside
  obtain ⟨msg, stage, owner⟩ := call
  refine ⟨index, ?_⟩
  rw [step, sendMessage, found]
  cases stage with
  | counted => cases drop <;> exact ⟨_, rfl⟩
  | _ => exact ⟨_, rfl⟩

end System

end MessagePassing
