import MessagePassing.Queue.Basic
import MessagePassing.System.Logger

/-! # A process

The inbox, the counters and the program counter of `Process::run`, one step for each
access to shared state; the sleeps are left out. Setting the process state goes with the
access it announces (`Announcing.step` takes the state and the record of it one after the
other). What the process received is kept in order. A step takes a message out of the inbox,
counts one already taken, or does neither (`Process.run_cases`); between the two the process
owes its counter a message (`Process.owed`).
-/

namespace MessagePassing

inductive ProcessState
  | running
  | blocked
  | idle
  deriving DecidableEq

instance : Inhabited Ticket := ⟨⟨0, Message.default⟩⟩

instance (event : LogEvent) : Decidable (Logger.Uncounted event) :=
  inferInstanceAs (Decidable (_ ∧ _))

/-- Where a process stands in its loop; `out` is the local message `received`. -/
inductive ProcessPoint
  | stopped
  | send
  | sending
  | countSent
  | receive
  | block
  | retry
  | unblock (out : Message Ticket)
  | check (out : Message Ticket)
  | report (out : Message Ticket)
  deriving DecidableEq

structure Process (Q : PriorityQueue (Message Ticket) MessageComparator) where
  queue : MessageQueue Q
  state : ProcessState
  point : ProcessPoint
  sentCount : ℕ
  receivedCount : ℕ
  received : List (Message Ticket)

namespace Process

variable {Q : PriorityQueue (Message Ticket) MessageComparator}

/-- A process as it is constructed, not started. -/
def new (id : ℤ) : Process Q where
  queue := .new id
  state := .idle
  point := .stopped
  sentCount := 0
  receivedCount := 0
  received := []

def getName (process : Process Q) : String := "P" ++ ToString.toString process.queue.ownerID

/-- The message `run` builds; the target and the priority are drawn at random. -/
def buildMessage (process : Process Q) (targetID : ℤ) (msgPrio : Priority) (id : ℤ)
    (timestamp : String) : Message Unit :=
  .create process.queue.ownerID targetID
    ("Hello from P" ++ ToString.toString process.queue.ownerID) msgPrio id timestamp

/-- Try to take a message, and go on at a point depending on the outcome. -/
def tryReceive (process : Process Q) (next : Bool → Message Ticket → ProcessPoint) : Process Q :=
  let (got, out, queue) := process.queue.nonBlockingReceive .default
  { process with
    queue := queue
    point := next got out
    received := if got then process.received ++ [out] else process.received }

/-- The next step of a process outside `sendMessage`, and what it logs. -/
def run (process : Process Q) : Option (Process Q × List LogRecord) :=
  match process.point with
  | .stopped => none
  | .send => none
  | .sending => none
  | .countSent => some ({ process with sentCount := process.sentCount + 1, point := .receive }, [])
  | .receive =>
      some (tryReceive { process with state := .running } fun got out =>
        if got then .check out else .block, [])
  | .block =>
      some ({ process with state := .blocked, point := .retry },
        [{ event := .processBlocked
           details := process.getName ++ " is blocking on receive..."
           ticket := none }])
  | .retry => -- the outcome is not looked at: without a message `out` stays the default
      some (tryReceive process fun _ out => .unblock out, [])
  | .unblock out =>
      some ({ process with state := .running, point := .check out },
        [{ event := .processUnblocked
           details := process.getName ++ " unblocked."
           ticket := none }])
  | .check out =>
      if out.messageID ≠ 0 then
        some ({ process with
          receivedCount := process.receivedCount + 1
          point := .report out }, [])
      else some ({ process with point := .send }, [])
  | .report out =>
      some ({ process with point := .send },
        [{ event := .general
           details := process.getName ++ " processed: " ++ out.toString
           ticket := some out.ticket }])

/-- One if a message was taken and is still to be counted. -/
def owed (process : Process Q) : ℕ :=
  match process.point with
  | .unblock out | .check out => if out.messageID ≠ 0 then 1 else 0
  | _ => 0

/-- Neither the inbox nor the accounts of what was received change. -/
structure Quiet (process next : Process Q) : Prop where
  queue : next.queue = process.queue
  received : next.received = process.received
  receivedCount : next.receivedCount = process.receivedCount
  owed : next.owed = process.owed

theorem quiet_move {process : Process Q} {state : ProcessState} {point : ProcessPoint}
    (before : process.owed = 0) (after : { process with state := state, point := point }.owed = 0) :
    process.Quiet { process with state := state, point := point } :=
  ⟨rfl, rfl, rfl, after.trans before.symm⟩

/-- A message of maximal rank moves from the inbox to those received. -/
structure Receives (process : Process Q) (out : Message Ticket) (next : Process Q) : Prop where
  takes : process.queue.Takes out next.queue
  received : next.received = process.received ++ [out]
  receivedCount : next.receivedCount = process.receivedCount
  before : process.owed = 0
  owed : next.owed = if out.messageID ≠ 0 then 1 else 0

/-- A message taken before is counted. -/
structure CountsReceived (process next : Process Q) : Prop where
  queue : next.queue = process.queue
  received : next.received = process.received
  receivedCount : next.receivedCount = process.receivedCount + 1
  before : process.owed = 1
  owed : next.owed = 0

/-- A receive takes a message, or leaves the inbox as it is and the default message in
its place. -/
theorem tryReceive_cases (process : Process Q) (next : Bool → Message Ticket → ProcessPoint) :
    (∃ out, process.queue.Takes out (process.tryReceive next).queue ∧
        (process.tryReceive next).point = next true out ∧
        (process.tryReceive next).received = process.received ++ [out] ∧
        (process.tryReceive next).receivedCount = process.receivedCount) ∨
      process.tryReceive next = { process with point := next false .default } := by
  unfold tryReceive
  rcases process.queue.nonBlockingReceive_cases .default with ⟨-, nothing⟩ |
    ⟨out, rest, received, takes⟩
  · right
    rw [nothing]
    rfl
  · left
    rw [received]
    exact ⟨out, takes, rfl, rfl, rfl⟩

/-- Everything a step can do to the inbox and the accounts. -/
theorem run_cases {process next : Process Q} {records : List LogRecord}
    (ran : process.run = some (next, records)) :
    (∀ record ∈ records, Logger.Uncounted record.event) ∧
      (process.Quiet next ∨ (∃ out, process.Receives out next) ∨ process.CountsReceived next) := by
  have none (records : List LogRecord) (empty : [] = records) :
      ∀ record ∈ records, Logger.Uncounted record.event :=
    empty ▸ fun _ absent => (List.not_mem_nil absent).elim
  have one (written : LogRecord) (records : List LogRecord) (single : [written] = records)
      (uncounted : Logger.Uncounted written.event) :
      ∀ record ∈ records, Logger.Uncounted record.event :=
    single ▸ fun _ member => List.mem_singleton.mp member ▸ uncounted
  obtain ⟨queue, state, point, sentCount, receivedCount, received⟩ := process
  cases point with
  | stopped => cases ran
  | send => cases ran
  | sending => cases ran
  | countSent =>
      obtain ⟨rfl, written⟩ := Prod.mk.injEq .. ▸ Option.some.inj ran
      exact ⟨none _ written, Or.inl ⟨rfl, rfl, rfl, rfl⟩⟩
  | receive =>
      obtain ⟨rfl, written⟩ := Prod.mk.injEq .. ▸ Option.some.inj ran
      refine ⟨none _ written, ?_⟩
      rcases tryReceive_cases (Q := Q)
          ⟨queue, .running, .receive, sentCount, receivedCount, received⟩
          fun got out => if got then .check out else .block with
        ⟨out, takes, point, longer, count⟩ | nothing
      · refine Or.inr (Or.inl ⟨out, takes, longer, count, rfl, ?_⟩)
        rw [owed, point]
        rfl
      · rw [nothing]
        exact Or.inl ⟨rfl, rfl, rfl, rfl⟩
  | block =>
      obtain ⟨rfl, written⟩ := Prod.mk.injEq .. ▸ Option.some.inj ran
      refine ⟨one _ _ written (by decide : Logger.Uncounted .processBlocked), Or.inl ?_⟩
      exact ⟨rfl, rfl, rfl, rfl⟩
  | retry =>
      obtain ⟨rfl, written⟩ := Prod.mk.injEq .. ▸ Option.some.inj ran
      refine ⟨none _ written, ?_⟩
      rcases tryReceive_cases (Q := Q) ⟨queue, state, .retry, sentCount, receivedCount, received⟩
          fun _ out => .unblock out with ⟨out, takes, point, longer, count⟩ | nothing
      · refine Or.inr (Or.inl ⟨out, takes, longer, count, rfl, ?_⟩)
        rw [owed, point]
      · rw [nothing]
        exact Or.inl ⟨rfl, rfl, rfl, rfl⟩
  | unblock out =>
      obtain ⟨rfl, written⟩ := Prod.mk.injEq .. ▸ Option.some.inj ran
      refine ⟨one _ _ written (by decide : Logger.Uncounted .processUnblocked), Or.inl ?_⟩
      exact ⟨rfl, rfl, rfl, rfl⟩
  | check out =>
      by_cases valid : out.messageID ≠ 0
      · simp only [run, if_pos valid, Option.some.injEq, Prod.mk.injEq] at ran
        obtain ⟨rfl, written⟩ := ran
        exact ⟨none _ written, Or.inr (Or.inr ⟨rfl, rfl, rfl, if_pos valid, rfl⟩)⟩
      · simp only [run, if_neg valid, Option.some.injEq, Prod.mk.injEq] at ran
        obtain ⟨rfl, written⟩ := ran
        exact ⟨none _ written, Or.inl ⟨rfl, rfl, rfl, (if_neg valid).symm⟩⟩
  | report out =>
      obtain ⟨rfl, written⟩ := Prod.mk.injEq .. ▸ Option.some.inj ran
      refine ⟨one _ _ written (by decide : Logger.Uncounted .general), Or.inl ?_⟩
      exact ⟨rfl, rfl, rfl, rfl⟩

/-- Inside `sendMessage` a process takes no step of its own. -/
theorem point_ne_sending_of_run {process : Process Q} {result : Process Q × List LogRecord}
    (ran : process.run = some result) : process.point ≠ .sending := by
  intro point
  rw [run, point] at ran
  cases ran

end Process

end MessagePassing
