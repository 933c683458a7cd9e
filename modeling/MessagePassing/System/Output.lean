import MessagePassing.Foundation.Transition
import MessagePassing.System.Causality

/-! # The log is written and never read

What a step writes does not depend on the log, and neither does anything else it does
(`System.step_withLogger`). So a thread outside the system may write to the same log at
any time: the steps taken and the states reached are those of the system without it, up
to the log itself.
-/

namespace MessagePassing

open Transition

namespace Logger

theorem logAll_initial_records (records : List LogRecord) :
    (Logger.initial.logAll records).records = records := logAll_records ..

end Logger

namespace System

variable {Q : PriorityQueue (Message Ticket) MessageComparator}

/-- The same system with another log. -/
def withLogger (s : System Q) (logger : Logger) : System Q := { s with logger := logger }

/-- The records a step writes, read off a log that was empty before it. -/
def written (s : System Q) (act : Action) : List LogRecord :=
  (((s.withLogger .initial).step act).map fun next => next.logger.records).getD []

/-- The dispatcher does the same whatever the log. -/
theorem dispatchLoop_withLogger (s : System Q) (logger : Logger) :
    (s.withLogger logger).dispatchLoop =
      s.dispatchLoop.withLogger (logger.logAll (s.written .dispatch)) := by
  change _ = s.dispatchLoop.withLogger
    (logger.logAll (s.withLogger .initial).dispatchLoop.logger.records)
  unfold dispatchLoop withLogger
  cases s.dispatcher with
  | iteration =>
      by_cases due : s.agingTimer + 1 ≥ Dispatch.agingPeriod
      · simp only [if_pos due, Logger.logAll_initial_records]
      · simp only [if_neg due]
        rfl
  | pick =>
      dsimp only
      cases s.scheduler.getNextMessage <;> rfl
  | deliver msg =>
      simp only [getProcess]
      by_cases registered : msg.receiverID ∈ s.registry
      · simp only [if_pos registered]
        cases (s.processes msg.receiverID).queue.enqueue msg with
        | mk delivered queue => cases delivered <;> rfl
      · simp only [if_neg registered]
        rfl
  | _ => rfl

/-- A thread inside `sendMessage` does the same whatever the log. -/
theorem sendMessage_withLogger (s : System Q) (index : ℕ) (drop : Bool) (logger : Logger) :
    (s.withLogger logger).sendMessage index drop =
      (s.sendMessage index drop).map fun next =>
        next.withLogger (logger.logAll (s.written (.proceed index drop))) := by
  change _ = (s.sendMessage index drop).map fun next => next.withLogger (logger.logAll
    ((((s.withLogger .initial).sendMessage index drop).map fun later =>
      later.logger.records).getD []))
  unfold sendMessage withLogger
  dsimp only
  cases s.calls[index]? with
  | none => rfl
  | some call =>
      obtain ⟨msg, stage, owner⟩ := call
      cases stage with
      | counted => cases drop <;> rfl
      | _ => rfl

/-- A step that is possible and writes nothing, whatever the log. -/
theorem withLogger_of_silent {s : System Q} {act : Action} (next : System Q)
    (silent : ∀ logger, (s.withLogger logger).step act = some (next.withLogger logger))
    (logger : Logger) : (s.withLogger logger).step act =
      (s.step act).map fun next => next.withLogger (logger.logAll (s.written act)) := by
  have here : s.step act = some (next.withLogger s.logger) := silent s.logger
  rw [written, silent, silent, here]
  rfl

/-- A step that is impossible, whatever the log. -/
theorem withLogger_of_disabled {s : System Q} {act : Action}
    (disabled : ∀ logger, (s.withLogger logger).step act = none) (logger : Logger) :
    (s.withLogger logger).step act =
      (s.step act).map fun next => next.withLogger (logger.logAll (s.written act)) := by
  have here : s.step act = none := disabled s.logger
  rw [disabled, here]
  rfl

/-- **No step reads the log.** With another log the same steps are possible, they change
the same things and they write the same records. -/
theorem step_withLogger (s : System Q) (act : Action) (logger : Logger) :
    (s.withLogger logger).step act =
      (s.step act).map fun next => next.withLogger (logger.logAll (s.written act)) := by
  cases act with
  | generateMessageID => rfl
  | enter msg => rfl
  | start id =>
      by_cases startable : id ∈ s.registry ∧ (s.processes id).point = .stopped
      · apply withLogger_of_silent
          (s.setProcess id { s.processes id with state := .running, point := .send })
        exact fun _ => if_pos startable
      · apply withLogger_of_disabled
        exact fun _ => if_neg startable
  | stop id =>
      by_cases sends : (s.processes id).point = .send
      · apply withLogger_of_silent
          (s.setProcess id { s.processes id with state := .idle, point := .stopped })
        exact fun _ => if_pos sends
      · apply withLogger_of_disabled
        exact fun _ => if_neg sends
  | send id targetID msgPrio timestamp =>
      by_cases able : (s.processes id).point = .send ∧ 1 ≤ targetID ∧
          targetID ≤ s.registry.card ∧ targetID ≠ id
      · apply withLogger_of_silent ((s.generateMessageID.2.setProcess id
          { s.processes id with state := .running, point := .sending }).enterSend
            ((s.processes id).buildMessage targetID msgPrio s.nextMessageID timestamp) (some id))
        exact fun _ => if_pos able
      · apply withLogger_of_disabled
        exact fun _ => if_neg able
  | proceed index drop => exact sendMessage_withLogger s index drop logger
  | run id =>
      simp only [step, written, withLogger]
      cases (s.processes id).run with
      | none => rfl
      | some result =>
          simp only [Option.map_some, Option.getD_some, Logger.logAll_initial_records]
          rfl
  | dispatch => exact congrArg some (dispatchLoop_withLogger s logger)

/-- What a step writes is added to the log. -/
theorem logger_of_step {s next : System Q} {act : Action} (taken : s.step act = some next) :
    next.logger = s.logger.logAll (s.written act) := by
  have same := step_withLogger s act s.logger
  rw [taken, Option.map_some] at same
  exact congrArg System.logger (Option.some.inj (taken.symm.trans same))

/-- The system but for its log. -/
def withoutLog (s : System Q) : System Q := s.withLogger .initial

/-- Anybody writes to the log. -/
def writeLog (s : System Q) (record : LogRecord) : System Q := s.withLogger (s.logger.log record)

/-- The steps write to the log only. -/
theorem writeOnly_step : WriteOnly (withoutLog (Q := Q)) (fun s => s.logger.records)
    System.step writeLog where
  blind first second same act := by
    have here : first.step act = _ := step_withLogger first.withoutLog act first.logger
    have there : second.step act = (first.withoutLog.step act).map fun next =>
        next.withLogger (second.logger.logAll (first.withoutLog.written act)) := by
      rw [same]
      exact step_withLogger second.withoutLog act second.logger
    cases taken : first.withoutLog.step act with
    | none =>
        rw [here, there, taken]
        exact Or.inl ⟨rfl, rfl⟩
    | some next =>
        refine Or.inr ⟨next.withLogger (first.logger.logAll (first.written act)),
          next.withLogger (second.logger.logAll (first.written act)), first.written act, ?_, ?_,
          rfl, Logger.logAll_records _ _, Logger.logAll_records _ _⟩
        · rw [here, taken]
          rfl
        · rw [there, taken]
          rfl
  unseen _ _ := rfl
  entered _ _ := rfl

end System

/-- **The log is unread.** Whatever others write to the log between the steps, a schedule is
possible exactly if it is without their records; it leads to the same system but for the log;
and the log is an interleaving of their records and those the steps write without them. -/
theorem logUnread {Q : PriorityQueue (Message Ticket) MessageComparator} (s : System Q)
    (schedule : List (Action ⊕ LogRecord)) :
    (exec (shared System.step System.writeLog) s schedule = none ∧
        exec System.step s (schedule.filterMap Sum.getLeft?) = none) ∨
      ∃ last alone, exec (shared System.step System.writeLog) s schedule = some last ∧
        exec System.step s (schedule.filterMap Sum.getLeft?) = some alone ∧
        last.withoutLog = alone.withoutLog ∧
        ∃ own merged, alone.logger.records = s.logger.records ++ own ∧
          last.logger.records = s.logger.records ++ merged ∧
          Interleaved own (schedule.filterMap Sum.getRight?) merged := by
  have shown : s.withoutLog = s.withoutLog := rfl
  rcases System.writeOnly_step.exec_shared shown schedule with stuck |
    ⟨last, alone, run, own, same⟩
  · exact Or.inl stuck
  · exact Or.inr ⟨last, alone, run, own, same.view, same.log⟩

end MessagePassing
