import MessagePassing.Message

/-! # The logger

The records written so far, in order, the last lines kept for display and the three
counters that `Logger::printStats` reports. Time stamps are left out. A record also
carries the ticket of the message it is about, which the text does not show. Lines and
counters follow from the records (`Logger.Recorded`).
-/

namespace MessagePassing

inductive LogEvent
  | msgSent
  | msgReceived
  | msgDropped
  | msgQueued
  | queueFull
  | processBlocked
  | processUnblocked
  | schedulerEvent
  | stressTest
  | general
  deriving DecidableEq, Repr

def LogEvent.eventToString : LogEvent → String
  | msgSent => "SENT    "
  | msgReceived => "RECV    "
  | msgDropped => "DROPPED "
  | msgQueued => "QUEUED  "
  | queueFull => "Q-FULL  "
  | processBlocked => "BLOCKED "
  | processUnblocked => "UNBLOCKD"
  | schedulerEvent => "SCHED   "
  | stressTest => "STRESS  "
  | general => "INFO    "

structure LogRecord where
  event : LogEvent
  details : String
  ticket : Option Ticket
  deriving DecidableEq

/-- The line a record becomes behind its time stamp. -/
def LogRecord.line (record : LogRecord) : String :=
  "[" ++ record.event.eventToString ++ "] " ++ record.details

structure Logger where
  records : List LogRecord
  recentLogs : List String
  totalSent : ℕ
  totalReceived : ℕ
  totalDropped : ℕ
  deriving DecidableEq

namespace Logger

/-- The most lines kept for display. -/
def maxRecent : ℕ := 100

def initial : Logger where
  records := []
  recentLogs := []
  totalSent := 0
  totalReceived := 0
  totalDropped := 0

def log (logger : Logger) (record : LogRecord) : Logger where
  records := logger.records ++ [record]
  recentLogs :=
    let lines := logger.recentLogs ++ [record.line]
    if lines.length > maxRecent then lines.tail else lines
  totalSent := if record.event = .msgSent then logger.totalSent + 1 else logger.totalSent
  totalReceived :=
    if record.event = .msgReceived then logger.totalReceived + 1 else logger.totalReceived
  totalDropped :=
    if record.event = .msgDropped then logger.totalDropped + 1 else logger.totalDropped

/-- The last lines kept, at most `count` of them. -/
def getRecentLogs (logger : Logger) (count : ℕ) : List String :=
  logger.recentLogs.drop (logger.recentLogs.length - count)

/-- Write several records. -/
def logAll (logger : Logger) (records : List LogRecord) : Logger := records.foldl log logger

/-- The events no counter counts. -/
def Uncounted (event : LogEvent) : Prop :=
  event ≠ .msgSent ∧ event ≠ .msgReceived ∧ event ≠ .msgDropped

/-- The counters of two loggers agree. -/
structure SameCounts (before after : Logger) : Prop where
  totalSent : after.totalSent = before.totalSent
  totalReceived : after.totalReceived = before.totalReceived
  totalDropped : after.totalDropped = before.totalDropped

theorem SameCounts.refl (logger : Logger) : SameCounts logger logger := ⟨rfl, rfl, rfl⟩

theorem SameCounts.trans {first second third : Logger} (before : SameCounts first second)
    (after : SameCounts second third) : SameCounts first third where
  totalSent := after.totalSent.trans before.totalSent
  totalReceived := after.totalReceived.trans before.totalReceived
  totalDropped := after.totalDropped.trans before.totalDropped

theorem sameCounts_log {logger : Logger} {record : LogRecord}
    (uncounted : Uncounted record.event) : SameCounts logger (logger.log record) where
  totalSent := if_neg uncounted.1
  totalReceived := if_neg uncounted.2.1
  totalDropped := if_neg uncounted.2.2

theorem sameCounts_logAll {records : List LogRecord}
    (uncounted : ∀ record ∈ records, Uncounted record.event) (logger : Logger) :
    SameCounts logger (logger.logAll records) := by
  induction records generalizing logger with
  | nil => exact .refl logger
  | cons record rest ih =>
      apply SameCounts.trans (sameCounts_log (uncounted record List.mem_cons_self))
      exact ih (fun other member => uncounted other (List.mem_cons_of_mem record member)) _

/-- The last lines of all records, and the number of records of each counted event. -/
structure Recorded (logger : Logger) : Prop where
  recentLogs : logger.recentLogs =
    (logger.records.map LogRecord.line).drop (logger.records.length - maxRecent)
  totalSent : logger.totalSent = logger.records.countP fun record => record.event = .msgSent
  totalReceived :
    logger.totalReceived = logger.records.countP fun record => record.event = .msgReceived
  totalDropped :
    logger.totalDropped = logger.records.countP fun record => record.event = .msgDropped

theorem Recorded.initial : initial.Recorded := ⟨rfl, rfl, rfl, rfl⟩

/-- Keeping the last `bound` elements when one is added. -/
theorem keep_last {α : Type} (list : List α) (last : α) (bound : ℕ) :
    (if (list.drop (list.length - bound) ++ [last]).length > bound then
        (list.drop (list.length - bound) ++ [last]).tail
      else list.drop (list.length - bound) ++ [last]) =
      (list ++ [last]).drop (list.length + 1 - bound) := by
  rw [← List.drop_append_of_le_length (Nat.sub_le list.length bound), List.length_drop,
    List.length_append, List.length_singleton, List.tail_drop]
  by_cases full : bound ≤ list.length
  · rw [if_pos (by omega), Nat.sub_add_comm full]
  · rw [if_neg (by omega), Nat.sub_eq_zero_of_le (by omega), Nat.sub_eq_zero_of_le (by omega)]

theorem Recorded.log {logger : Logger} (recorded : logger.Recorded) (record : LogRecord) :
    (logger.log record).Recorded := by
  have one (event : LogEvent) (count : ℕ)
      (before : count = logger.records.countP fun other => other.event = event) :
      (if record.event = event then count + 1 else count) =
        (logger.records ++ [record]).countP fun other => other.event = event := by
    rw [List.countP_append, List.countP_singleton, ← before]
    by_cases same : record.event = event
    · rw [if_pos same, if_pos (decide_eq_true same)]
    · rw [if_neg same, if_neg fun equal => same (of_decide_eq_true equal), Nat.add_zero]
  refine ⟨?_, one _ _ recorded.totalSent, one _ _ recorded.totalReceived,
    one _ _ recorded.totalDropped⟩
  have kept := keep_last (logger.records.map LogRecord.line) record.line maxRecent
  rw [List.length_map, ← recorded.recentLogs] at kept
  simp only [Logger.log, List.map_append, List.map_singleton, List.length_append,
    List.length_singleton] at kept ⊢
  exact kept

theorem Recorded.logAll {logger : Logger} (recorded : logger.Recorded) (records : List LogRecord) :
    (logger.logAll records).Recorded := by
  induction records generalizing logger with
  | nil => exact recorded
  | cons record rest ih => exact ih (recorded.log record)

/-- What is displayed are the last lines written. -/
theorem Recorded.getRecentLogs_eq {logger : Logger} (recorded : logger.Recorded) (count : ℕ) :
    logger.getRecentLogs count = (logger.records.map LogRecord.line).drop
      (logger.records.length - min count maxRecent) := by
  rw [getRecentLogs, recorded.recentLogs, List.length_drop, List.length_map, List.drop_drop]
  congr 1
  omega

end Logger

end MessagePassing
