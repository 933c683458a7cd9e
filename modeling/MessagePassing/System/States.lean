import MessagePassing.System.Audit
import MessagePassing.System.Output

/-! # The states of a process

The state a process shows follows from where it stands in its loop, and it changes only from
idle to running, from there to blocked and back, and from running to idle. The log tells of
each wait. `Process.run` sets the state and writes the record of it in two critical sections,
and `Announcing` takes its steps so: with the record about to be written, if there is one, those
of a process blocking and going on alternate, and the last one is that of its blocking exactly
while it is blocked (`processStates`).
-/

namespace MessagePassing

open Transition

variable {Q : PriorityQueue (Message Ticket) MessageComparator}

/-- The state a process shows where it stands. -/
def ProcessPoint.state : ProcessPoint → ProcessState
  | .stopped => .idle
  | .retry | .unblock _ => .blocked
  | _ => .running

/-- What a process may do next to its state. -/
inductive ProcessState.Follows : ProcessState → ProcessState → Prop
  | start : Follows .idle .running
  | block : Follows .running .blocked
  | unblock : Follows .blocked .running
  | stop : Follows .running .idle

/-- What the process with this ID writes before it waits for a message. -/
def LogRecord.blocks (id : ℤ) : LogRecord where
  event := .processBlocked
  details := "P" ++ ToString.toString id ++ " is blocking on receive..."
  ticket := none

/-- What it writes after it waited. -/
def LogRecord.unblocks (id : ℤ) : LogRecord where
  event := .processUnblocked
  details := "P" ++ ToString.toString id ++ " unblocked."
  ticket := none

def LogRecord.isWait (id : ℤ) (record : LogRecord) : Bool :=
  record = .blocks id ∨ record = .unblocks id

/-- The records of the waits of one process. -/
def Logger.waits (id : ℤ) (records : List LogRecord) : List LogRecord :=
  records.filter (LogRecord.isWait id)

/-- A number is told by its digits. -/
theorem repr_inj {m n : ℕ} (same : m.repr = n.repr) : m = n := by
  have digits : Nat.toDigits 10 m = Nat.toDigits 10 n := by
    rw [← Nat.toList_repr, ← Nat.toList_repr, same]
  rw [← Nat.ofDigitChars_toDigits (b := 10) (n := m) (by decide) le_rfl, digits,
    Nat.ofDigitChars_toDigits (by decide) le_rfl]

/-- A sign is not a digit. -/
theorem repr_ne_sign (m n : ℕ) : m.repr ≠ "-" ++ n.repr := by
  intro same
  have member : '-' ∈ m.repr.toList := by
    rw [same, String.toList_append]
    exact List.mem_cons_self
  rw [Nat.toList_repr] at member
  exact absurd (Nat.isDigit_of_mem_toDigits (by decide) le_rfl member) (by decide)

/-- No two processes have the same name. -/
theorem toString_inj {id other : ℤ} (same : ToString.toString id = ToString.toString other) :
    id = other := by
  cases id with
  | ofNat id =>
      cases other with
      | ofNat other => exact congrArg Int.ofNat (repr_inj same)
      | negSucc other => exact absurd same (repr_ne_sign id _)
  | negSucc id =>
      cases other with
      | ofNat other => exact absurd same.symm (repr_ne_sign other _)
      | negSucc other =>
          have digits : (id + 1).repr = (other + 1).repr := (String.append_right_inj "-").mp same
          exact congrArg Int.negSucc (Nat.succ_injective (repr_inj digits))

theorem LogRecord.blocks_inj {id other : ℤ} : blocks id = blocks other ↔ id = other := by
  constructor
  · intro same
    have details := (LogRecord.mk.inj same).2.1
    rw [String.append_left_inj, String.append_right_inj] at details
    exact toString_inj details
  · rintro rfl
    rfl

theorem LogRecord.unblocks_inj {id other : ℤ} : unblocks id = unblocks other ↔ id = other := by
  constructor
  · intro same
    have details := (LogRecord.mk.inj same).2.1
    rw [String.append_left_inj, String.append_right_inj] at details
    exact toString_inj details
  · rintro rfl
    rfl

theorem LogRecord.isWait_blocks {id other : ℤ} : (blocks other).isWait id = true ↔ other = id := by
  rw [isWait, decide_eq_true_eq, blocks_inj]
  exact or_iff_left fun same => LogEvent.noConfusion (LogRecord.mk.inj same).1

theorem LogRecord.isWait_unblocks {id other : ℤ} :
    (unblocks other).isWait id = true ↔ other = id := by
  rw [isWait, decide_eq_true_eq, unblocks_inj]
  exact or_iff_right fun same => LogEvent.noConfusion (LogRecord.mk.inj same).1

/-- A record tells of the waits of one process at most. -/
theorem LogRecord.isWait_unique {id other : ℤ} {record : LogRecord}
    (tells : record.isWait id = true) (also : record.isWait other = true) : id = other := by
  rcases of_decide_eq_true tells with rfl | rfl
  · exact isWait_blocks.mp also
  · exact isWait_unblocks.mp also

/-- A record about a message does not tell of a wait. -/
theorem LogRecord.not_isWait {id : ℤ} {record : LogRecord} (about : record.ticket ≠ none) :
    ¬ record.isWait id = true := by
  rw [isWait, decide_eq_true_eq]
  rintro (rfl | rfl) <;> exact about rfl

namespace Logger

theorem waits_append (id : ℤ) (first second : List LogRecord) :
    waits id (first ++ second) = waits id first ++ waits id second := List.filter_append ..

theorem waits_eq_nil {id : ℤ} {records : List LogRecord}
    (others : ∀ record ∈ records, ¬ record.isWait id = true) : waits id records = [] :=
  List.filter_eq_nil_iff.mpr others

theorem waits_singleton {id : ℤ} {record : LogRecord} (tells : record.isWait id = true) :
    waits id [record] = [record] := by
  rw [waits, List.filter_singleton, tells]
  rfl

theorem waits_foreign {id other : ℤ} {record : LogRecord} (tells : record.isWait id = true)
    (foreign : other ≠ id) : waits other [record] = [] := by
  refine waits_eq_nil fun written member also => foreign ?_
  exact LogRecord.isWait_unique (List.mem_singleton.mp member ▸ also) tells

end Logger

/-- The records of the waits of a process: some are over, and one is not if it is blocked. -/
def waitsUntil (id : ℤ) (past : ℕ) (state : ProcessState) : List LogRecord :=
  (List.replicate past [LogRecord.blocks id, LogRecord.unblocks id]).flatten ++
    if state = .blocked then [LogRecord.blocks id] else []

/-- What a process writes in a turn, by its state before and after. -/
inductive WaitStep (id : ℤ) : ProcessState → ProcessState → List LogRecord → Prop
  | keep (state : ProcessState) : WaitStep id state state []
  | move (before after : ProcessState) : before.Follows after → before ≠ .blocked →
      after ≠ .blocked → WaitStep id before after []
  | block : WaitStep id .running .blocked [LogRecord.blocks id]
  | unblock : WaitStep id .blocked .running [LogRecord.unblocks id]

theorem WaitStep.follows {id : ℤ} {before after : ProcessState} {more : List LogRecord}
    (step : WaitStep id before after more) : after = before ∨ before.Follows after := by
  cases step with
  | keep => exact Or.inl rfl
  | move _ _ follows => exact Or.inr follows
  | block => exact Or.inr .block
  | unblock => exact Or.inr .unblock

theorem WaitStep.waits {id : ℤ} {before after : ProcessState} {more records : List LogRecord}
    (step : WaitStep id before after more) {past : ℕ}
    (waited : records = waitsUntil id past before) :
    ∃ later, records ++ more = waitsUntil id later after := by
  cases step with
  | keep => exact ⟨past, by rw [List.append_nil, waited]⟩
  | move _ _ _ running rests =>
      refine ⟨past, ?_⟩
      rw [List.append_nil, waited, waitsUntil, waitsUntil, if_neg running, if_neg rests]
  | block =>
      refine ⟨past, ?_⟩
      rw [waited, waitsUntil, waitsUntil, if_neg ProcessState.noConfusion, List.append_nil,
        if_pos rfl]
  | unblock =>
      refine ⟨past + 1, ?_⟩
      rw [waited, waitsUntil, waitsUntil, if_pos rfl, if_neg ProcessState.noConfusion,
        List.append_nil, List.append_assoc, List.replicate_succ', List.flatten_append,
        List.flatten_singleton]
      rfl

namespace Process

/-- What a turn of a process does to its state, and what it tells of its waits. -/
theorem Turn.waitStep {process next : Process Q} {records : List LogRecord}
    (turn : process.Turn next records) (state : process.state = process.point.state) :
    next.state = next.point.state ∧
      WaitStep process.queue.ownerID process.state next.state
        (Logger.waits process.queue.ownerID records) := by
  cases turn with
  | countSent here =>
      rw [here] at state
      exact ⟨state, .keep _⟩
  | take out queue here =>
      rw [here] at state
      rw [state]
      exact ⟨rfl, .keep _⟩
  | miss here =>
      rw [here] at state
      rw [state]
      exact ⟨rfl, .keep _⟩
  | block here =>
      rw [here] at state
      rw [state]
      refine ⟨rfl, ?_⟩
      change WaitStep _ _ _ (Logger.waits _ [LogRecord.blocks process.queue.ownerID])
      rw [Logger.waits_singleton (LogRecord.isWait_blocks.mpr rfl)]
      exact .block
  | retake out queue here =>
      rw [here] at state
      exact ⟨state, .keep _⟩
  | giveUp here =>
      rw [here] at state
      exact ⟨state, .keep _⟩
  | unblock out here =>
      rw [here] at state
      rw [state]
      refine ⟨rfl, ?_⟩
      change WaitStep _ _ _ (Logger.waits _ [LogRecord.unblocks process.queue.ownerID])
      rw [Logger.waits_singleton (LogRecord.isWait_unblocks.mpr rfl)]
      exact .unblock
  | count out here =>
      rw [here] at state
      exact ⟨state, .keep _⟩
  | ignore out here =>
      rw [here] at state
      exact ⟨state, .keep _⟩
  | report out here =>
      rw [here] at state
      refine ⟨state, ?_⟩
      rw [Logger.waits_eq_nil]
      · exact .keep _
      · intro record member
        rw [List.mem_singleton.mp member]
        exact LogRecord.not_isWait (Option.some_ne_none _)

/-- A process tells of no other's waits. -/
theorem Turn.waits_other {process next : Process Q} {records : List LogRecord}
    (turn : process.Turn next records) {id : ℤ} (other : process.queue.ownerID ≠ id) :
    Logger.waits id records = [] := by
  apply Logger.waits_eq_nil
  cases turn with
  | block here =>
      intro record member
      rw [List.mem_singleton.mp member]
      exact fun tells => other (LogRecord.isWait_blocks.mp tells)
  | unblock out here =>
      intro record member
      rw [List.mem_singleton.mp member]
      exact fun tells => other (LogRecord.isWait_unblocks.mp tells)
  | report out here =>
      intro record member
      rw [List.mem_singleton.mp member]
      exact LogRecord.not_isWait (Option.some_ne_none _)
  | _ => exact fun _ absent => (List.not_mem_nil absent).elim

end Process

namespace System

variable {s next : System Q} {act : Action}

/-- What is not a step of a process tells of messages only. -/
theorem records_about (taken : s.step act = some next) (other : ∀ id, act ≠ .run id) :
    ∃ more, next.logger.records = s.logger.records ++ more ∧
      ∀ record ∈ more, record.ticket ≠ none := by
  have one {record : LogRecord} {ticket : Ticket} (about : record.ticket = some ticket) :
      ∀ written ∈ [record], written.ticket ≠ none := by
    intro written member
    rw [List.mem_singleton.mp member, about]
    exact Option.some_ne_none _
  have nothing : ∃ more, s.logger.records = s.logger.records ++ more ∧
      ∀ record ∈ more, record.ticket ≠ none :=
    ⟨[], (List.append_nil _).symm, fun _ absent => (List.not_mem_nil absent).elim⟩
  cases step_kind taken with
  | finish index drop front back call record split stages about =>
      exact ⟨[record], rfl, one about⟩
  | run id => exact absurd rfl (other id)
  | age =>
      refine ⟨agingRecords s.scheduler, Logger.logAll_records _ _, fun record member => ?_⟩
      obtain ⟨msg, -, boosted⟩ := List.mem_filterMap.mp member
      obtain ⟨text, -, rfl⟩ := Option.map_eq_some_iff.mp boosted
      exact Option.some_ne_none _
  | reject msg record point registered full =>
      obtain ⟨written, more, noted⟩ := full_logged taken point registered full
      exact ⟨[written], more, one (LogRecord.ticket_of_note noted)⟩
  | logDelivered msg record point event about => exact ⟨[record], rfl, one about⟩
  | note msg record point =>
      obtain ⟨written, about, more, noted, -⟩ := hand_logged taken point
      exact ⟨[written], more, one (LogRecord.ticket_of_note noted)⟩
  | _ => exact nothing

/-- What a process does to its state, and tells of its waits, in a step of its own. -/
theorem wait_run {id other : ℤ} (owners : ∀ i, (s.processes i).queue.ownerID = i)
    (state : (s.processes id).state = (s.processes id).point.state)
    (taken : s.step (.run other) = some next) :
    (next.processes id).state = (next.processes id).point.state ∧
      ∃ more, next.logger.records = s.logger.records ++ more ∧
        WaitStep id (s.processes id).state (next.processes id).state (Logger.waits id more) := by
  obtain ⟨⟨process, records⟩, ran, rfl⟩ := Option.map_eq_some_iff.mp taken
  have turn := Process.turn_of_run ran
  change ((s.setProcess other process).processes id).state =
    ((s.setProcess other process).processes id).point.state ∧ ∃ more, _ ∧
      WaitStep id _ ((s.setProcess other process).processes id).state _
  by_cases here : id = other
  · subst here
    rw [setProcess_same]
    obtain ⟨shown, tells⟩ := turn.waitStep state
    rw [owners id] at tells
    exact ⟨shown, records, Logger.logAll_records _ _, tells⟩
  · rw [setProcess_other _ _ here]
    refine ⟨state, records, Logger.logAll_records _ _, ?_⟩
    rw [turn.waits_other ((owners other).trans_ne (Ne.symm here))]
    exact .keep _

/-- What a step does to the state of a process, and tells of its waits. -/
theorem wait_step (threads : s.Threads) {id : ℤ}
    (owners : ∀ i, (s.processes i).queue.ownerID = i)
    (state : (s.processes id).state = (s.processes id).point.state)
    (taken : s.step act = some next) :
    (next.processes id).state = (next.processes id).point.state ∧
      ∃ more, next.logger.records = s.logger.records ++ more ∧
        WaitStep id (s.processes id).state (next.processes id).state (Logger.waits id more) := by
  by_cases runs : ∃ other, act = .run other
  · obtain ⟨other, rfl⟩ := runs
    exact wait_run owners state taken
  obtain ⟨more, written, about⟩ := records_about taken fun other same => runs ⟨other, same⟩
  have silent : Logger.waits id more = [] :=
    Logger.waits_eq_nil fun record member => LogRecord.not_isWait (about record member)
  have moved := processStep taken id
  generalize next.processes id = process at moved
  suffices changes : process.state = process.point.state ∧
      WaitStep id (s.processes id).state process.state [] by
    exact ⟨changes.1, more, written, silent ▸ changes.2⟩
  cases moved with
  | keep => exact ⟨state, .keep _⟩
  | deliver => exact ⟨state, .keep _⟩
  | start same point =>
      rw [point] at state
      rw [state]
      exact ⟨rfl, .move _ _ .start ProcessState.noConfusion ProcessState.noConfusion⟩
  | stop same point =>
      rw [point] at state
      rw [state]
      exact ⟨rfl, .move _ _ .stop ProcessState.noConfusion ProcessState.noConfusion⟩
  | send targetID msgPrio timestamp same point =>
      rw [point] at state
      rw [state]
      exact ⟨rfl, .keep _⟩
  | finish index drop call same member owner =>
      rw [threads.sending id (List.mem_filterMap.mpr ⟨call, member, owner⟩)] at state
      exact ⟨state, .keep _⟩
  | run process records same => exact absurd ⟨id, same⟩ runs

/-- The states are those of the points, and the log tells of the waits. -/
structure Showing (s : System Q) : Prop where
  threads : s.Threads
  addressed : ∀ id, Addressed s.registry id (s.processes id)
  states : ∀ id, (s.processes id).state = (s.processes id).point.state
  waits : ∀ id, ∃ past, Logger.waits id s.logger.records = waitsUntil id past (s.processes id).state

theorem Showing.initial (registry : Finset ℤ) : (initial registry : System Q).Showing where
  threads := .initial registry
  addressed := addressed_initial registry
  states _ := rfl
  waits _ := ⟨0, rfl⟩

theorem Showing.step (showing : s.Showing) (taken : s.step act = some next) : next.Showing where
  threads := showing.threads.step taken
  addressed := addressed_step showing.addressed taken
  states id := (wait_step showing.threads (fun i => (showing.addressed i).ownerID)
    (showing.states id) taken).1
  waits id := by
    obtain ⟨-, more, written, changes⟩ := wait_step showing.threads
      (fun i => (showing.addressed i).ownerID) (showing.states id) taken
    obtain ⟨past, waited⟩ := showing.waits id
    rw [written, Logger.waits_append]
    exact changes.waits waited

end System

/-! ## The state before the record -/

/-- Where a process sets its state and then writes a record of it. -/
def ProcessPoint.announces : ProcessPoint → Bool
  | .block | .unblock _ => true
  | _ => false

/-- The system, and what each process has shown by its state and not written yet. -/
structure Announcing (Q : PriorityQueue (Message Ticket) MessageComparator) where
  system : System Q
  unwritten : ℤ → List LogRecord

/-- Not a record of a wait. -/
def LogRecord.unrelated (record : LogRecord) : Bool :=
  decide (record.event ≠ .processBlocked ∧ record.event ≠ .processUnblocked)

theorem LogRecord.filter_unrelated {id : ℤ} {record : LogRecord}
    (tells : record.isWait id = true) : [record].filter LogRecord.unrelated = [] := by
  rcases of_decide_eq_true tells with rfl | rfl <;> rfl

/-- Where a process sets its state it owes one record, of its own wait. -/
theorem Process.Turn.announced {process next : Process Q} {records : List LogRecord}
    (turn : process.Turn next records) (announces : process.point.announces = true) :
    ∃ record, records = [record] ∧ record.isWait process.queue.ownerID = true := by
  have elsewhere {point : ProcessPoint} (here : process.point = point)
      (silent : point.announces = false) :
      ∃ record, records = [record] ∧ record.isWait process.queue.ownerID = true := by
    rw [here, silent] at announces
    cases announces
  cases turn with
  | block here => exact ⟨_, rfl, LogRecord.isWait_blocks.mpr rfl⟩
  | unblock out here => exact ⟨_, rfl, LogRecord.isWait_unblocks.mpr rfl⟩
  | countSent here => exact elsewhere here rfl
  | take out queue here => exact elsewhere here rfl
  | miss here => exact elsewhere here rfl
  | retake out queue here => exact elsewhere here rfl
  | giveUp here => exact elsewhere here rfl
  | count out here => exact elsewhere here rfl
  | ignore out here => exact elsewhere here rfl
  | report out here => exact elsewhere here rfl

namespace System

variable {s next : System Q} {act : Action}

/-- What a step is seen to add to the log is what it writes. -/
theorem written_eq {more : List LogRecord} (taken : s.step act = some next)
    (added : next.logger.records = s.logger.records ++ more) : s.written act = more := by
  rw [logger_of_step taken, Logger.logAll_records] at added
  exact List.append_cancel_left added

/-- A step tells of the waits of the process that takes it only. -/
theorem waits_written (owners : ∀ i, (s.processes i).queue.ownerID = i)
    (taken : s.step act = some next) {id : ℤ} (other : act ≠ .run id) :
    Logger.waits id (s.written act) = [] := by
  by_cases runs : ∃ runner, act = .run runner
  · obtain ⟨runner, rfl⟩ := runs
    obtain ⟨⟨process, records⟩, ran, rfl⟩ := Option.map_eq_some_iff.mp taken
    rw [written_eq taken (Logger.logAll_records _ _)]
    apply (Process.turn_of_run ran).waits_other
    rintro rfl
    exact other (congrArg Action.run (owners runner).symm)
  · obtain ⟨more, added, about⟩ := records_about taken fun runner same => runs ⟨runner, same⟩
    rw [written_eq taken added]
    exact Logger.waits_eq_nil fun record member => LogRecord.not_isWait (about record member)

end System

namespace Announcing

def initial (registry : Finset ℤ) : Announcing Q where
  system := .initial registry
  unwritten _ := []

/-- A process writes the record it owes, or sets its state and owes the record; elsewhere its
steps are those of the system. -/
def run (s : Announcing Q) (id : ℤ) : Option (Announcing Q) :=
  match s.unwritten id with
  | record :: rest => some
      { system := s.system.writeLog record
        unwritten := Function.update s.unwritten id rest }
  | [] =>
      if (s.system.processes id).point.announces then
        (s.system.processes id).run.map fun (process, records) =>
          { system := s.system.setProcess id process
            unwritten := Function.update s.unwritten id records }
      else (s.system.step (.run id)).map fun next => { s with system := next }

/-- One step of a thread. -/
def step (s : Announcing Q) : Action → Option (Announcing Q)
  | .run id => s.run id
  | act => (s.system.step act).map fun next => { s with system := next }

/-- Nothing, or one record of a wait of the process. -/
def Owes (id : ℤ) (records : List LogRecord) : Prop :=
  records = [] ∨ ∃ record, records = [record] ∧ record.isWait id = true

theorem Owes.update {unwritten : ℤ → List LogRecord} {records : List LogRecord} {id : ℤ}
    (before : ∀ i, Owes i (unwritten i)) (owes : Owes id records) (i : ℤ) :
    Owes i (Function.update unwritten id records i) := by
  by_cases here : i = id
  · subst here
    rw [Function.update_self]
    exact owes
  · rw [Function.update_of_ne here]
    exact before i

/-- All else is the same but for the log, where a process may owe one record of its waits. -/
structure Means (r : Announcing Q) (s : System Q) : Prop where
  same : s = r.system.withLogger s.logger
  others : r.system.logger.records.filter LogRecord.unrelated =
    s.logger.records.filter LogRecord.unrelated
  owes : ∀ id, Owes id (r.unwritten id)
  waits : ∀ id, Logger.waits id s.logger.records =
    Logger.waits id r.system.logger.records ++ r.unwritten id

variable {r next : Announcing Q} {s : System Q} {act : Action}

theorem Means.initial (registry : Finset ℤ) :
    (initial registry : Announcing Q).Means (.initial registry) where
  same := rfl
  others := rfl
  owes _ := Or.inl rfl
  waits _ := rfl

theorem Means.processes (means : r.Means s) : s.processes = r.system.processes := by
  rw [means.same]
  rfl

/-- A step of the system, by a thread that owes no record. -/
theorem Means.follow {later : System Q} (means : r.Means s)
    (owners : ∀ i, (s.processes i).queue.ownerID = i)
    (paid : ∀ id, act = .run id → r.unwritten id = [])
    (taken : r.system.step act = some later) :
    ∃ t, s.step act = some t ∧ Means { r with system := later } t := by
  rw [means.processes] at owners
  obtain ⟨same, others, owes, waits⟩ := means
  have logger := System.logger_of_step taken
  have moved : s.step act = some (later.withLogger
      (s.logger.logAll (r.system.written act))) := by
    rw [congrArg (fun s => System.step s act) same, System.step_withLogger, taken]
    rfl
  refine ⟨_, moved, rfl, ?_, owes, fun id => ?_⟩
  · change later.logger.records.filter _ = (s.logger.logAll _).records.filter _
    rw [logger, Logger.logAll_records, Logger.logAll_records, List.filter_append,
      List.filter_append, others]
  · change Logger.waits id (s.logger.logAll _).records =
      Logger.waits id later.logger.records ++ r.unwritten id
    rw [logger, Logger.logAll_records, Logger.logAll_records, Logger.waits_append,
      Logger.waits_append, waits id]
    by_cases runner : act = .run id
    · rw [paid id runner, List.append_nil, List.append_nil]
    · rw [System.waits_written owners taken runner, List.append_nil, List.append_nil]

/-- A process sets its state: in the system it writes the record now. -/
theorem Means.announce {id : ℤ} {process : Process Q} {records : List LogRecord}
    (means : r.Means s) (owners : ∀ i, (s.processes i).queue.ownerID = i)
    (paid : r.unwritten id = []) (announces : (r.system.processes id).point.announces = true)
    (ran : (r.system.processes id).run = some (process, records)) :
    ∃ t, s.step (.run id) = some t ∧ Means
      { system := r.system.setProcess id process
        unwritten := Function.update r.unwritten id records } t := by
  have owner := owners id
  obtain ⟨same, others, owes, waits⟩ := means
  obtain ⟨logger, rfl⟩ : ∃ logger, s = r.system.withLogger logger := ⟨_, same⟩
  obtain ⟨record, rfl, tells⟩ := (Process.turn_of_run ran).announced announces
  change (r.system.processes id).queue.ownerID = id at owner
  rw [owner] at tells
  refine ⟨_, Option.map_eq_some_iff.mpr ⟨(process, [record]), ran, rfl⟩, rfl, ?_,
    Owes.update owes (Or.inr ⟨record, rfl, tells⟩), fun i => ?_⟩
  · change _ = (logger.records ++ [record]).filter _
    rw [List.filter_append, LogRecord.filter_unrelated tells, List.append_nil]
    exact others
  · change Logger.waits i (logger.records ++ [record]) =
      Logger.waits i r.system.logger.records ++ Function.update r.unwritten id [record] i
    have before : Logger.waits i logger.records = _ := waits i
    rw [Logger.waits_append, before]
    by_cases here : i = id
    · subst here
      rw [Function.update_self, paid, List.append_nil, Logger.waits_singleton tells]
    · rw [Function.update_of_ne here, Logger.waits_foreign tells here, List.append_nil]

/-- A process writes the record it owes. -/
theorem Means.pay {id : ℤ} {record : LogRecord} {rest : List LogRecord} (means : r.Means s)
    (owed : r.unwritten id = record :: rest) : Means
      { system := r.system.writeLog record
        unwritten := Function.update r.unwritten id rest } s := by
  obtain ⟨same, others, owes, waits⟩ := means
  obtain ⟨rfl, tells⟩ : rest = [] ∧ record.isWait id = true := by
    rcases owes id with nothing | ⟨only, single, tells⟩
    · cases nothing.symm.trans owed
    · obtain ⟨rfl, rfl⟩ := List.cons.inj (owed.symm.trans single)
      exact ⟨rfl, tells⟩
  refine ⟨same, ?_, Owes.update owes (Or.inl rfl), fun i => ?_⟩
  · change (r.system.logger.records ++ [record]).filter _ = _
    rw [List.filter_append, LogRecord.filter_unrelated tells, List.append_nil, others]
  · change _ = Logger.waits i (r.system.logger.records ++ [record]) ++
      Function.update r.unwritten id [] i
    rw [waits i, Logger.waits_append]
    by_cases here : i = id
    · subst here
      rw [Function.update_self, owed, Logger.waits_singleton tells, List.append_nil]
    · rw [Function.update_of_ne here, Logger.waits_foreign tells here, List.append_nil]

theorem step_other (other : ∀ id, act ≠ .run id) : r.step act =
    (r.system.step act).map fun next => { r with system := next } := by
  cases act with
  | run id => exact absurd rfl (other id)
  | _ => rfl

/-- **One step.** The system takes the same step, or none when a process writes the record it
owes. -/
theorem Means.step (means : r.Means s) (owners : ∀ i, (s.processes i).queue.ownerID = i)
    (taken : r.step act = some next) : next.Means s ∨ ∃ t, s.step act = some t ∧ next.Means t := by
  by_cases runs : ∃ id, act = .run id
  · obtain ⟨id, rfl⟩ := runs
    change r.run id = some next at taken
    rw [run] at taken
    cases owed : r.unwritten id with
    | cons record rest =>
        rw [owed] at taken
        obtain rfl := Option.some.inj taken
        exact Or.inl (means.pay owed)
    | nil =>
        rw [owed] at taken
        dsimp only at taken
        by_cases announces : (r.system.processes id).point.announces = true
        · rw [if_pos announces] at taken
          obtain ⟨⟨process, records⟩, ran, rfl⟩ := Option.map_eq_some_iff.mp taken
          exact Or.inr (means.announce owners owed announces ran)
        · rw [if_neg announces] at taken
          obtain ⟨later, moved, rfl⟩ := Option.map_eq_some_iff.mp taken
          exact Or.inr (means.follow owners (fun i same => Action.run.inj same ▸ owed) moved)
  · have other : ∀ id, act ≠ .run id := fun id same => runs ⟨id, same⟩
    rw [step_other other] at taken
    obtain ⟨later, moved, rfl⟩ := Option.map_eq_some_iff.mp taken
    exact Or.inr (means.follow owners (fun id same => absurd same (other id)) moved)

/-- Every run is one of the system. -/
theorem means_run {registry : Finset ℤ} {acts : List Action}
    (run : exec step (initial registry) acts = some r) : ∃ coarse s,
      exec System.step (.initial registry) coarse = some s ∧ coarse.length ≤ acts.length ∧
      r.Means s ∧ s.Showing := by
  refine exec_refinement (fun r s => r.Means s ∧ s.Showing) ?_
    ⟨.initial registry, .initial registry⟩ run
  rintro r act next s ⟨means, showing⟩ taken
  rcases means.step (fun i => (showing.addressed i).ownerID) taken with
    stays | ⟨t, moved, follows⟩
  · exact Or.inl ⟨stays, showing⟩
  · exact Or.inr ⟨act, t, moved, follows, showing.step moved⟩

end Announcing

end MessagePassing
