import MessagePassing.System.Accounting
import MessagePassing.System.MessageIDs
import MessagePassing.System.Senders
import MessagePassing.System.Shutdown
import Mathlib.Order.Interval.Finset.Nat

/-! # The final statistics

When `main` is done every thread is at rest: no call is left inside `sendMessage`, the
dispatcher is between iterations and no process runs (`Program.resting_of_finished`). Then the
counters of the logger and of the processes, which different threads keep, agree, and what
separates the messages printed as sent from those printed as received are those still pending
and those a full inbox rejected (`finalStatistics`). The lines the window shows and the numbers
printed are those of the log at any time (`logShown`).
-/

namespace MessagePassing

open Transition

variable {Q : PriorityQueue (Message Ticket) MessageComparator}

/-- What `main` prints of one process. -/
structure ReportLine where
  name : String
  sent : ℕ
  received : ℕ
  queue : ℕ
  deriving DecidableEq

/-- What `Logger::printStats` and `main` print at the end. -/
structure Report where
  messagesSent : ℕ
  messagesReceived : ℕ
  messagesDropped : ℕ
  processes : List ReportLine
  deriving DecidableEq

def ReportLine.text (line : ReportLine) : String :=
  "    " ++ line.name ++ " | Sent: " ++ ToString.toString line.sent ++ " | Received: " ++
    ToString.toString line.received ++ " | Queue: " ++ ToString.toString line.queue ++ "\n"

def Report.text (report : Report) : String :=
  "\n==============================\n" ++ "  SIMULATION STATISTICS\n" ++
    "==============================\n" ++
    "  Messages Sent:     " ++ ToString.toString report.messagesSent ++ "\n" ++
    "  Messages Received: " ++ ToString.toString report.messagesReceived ++ "\n" ++
    "  Messages Dropped:  " ++ ToString.toString report.messagesDropped ++ "\n" ++
    "==============================\n\n" ++ "  Per-process stats:\n" ++
    String.join (report.processes.map ReportLine.text) ++
    "\n  Log saved to: logs/ipc_simulation.log\n\n"

def Process.reportLine (process : Process Q) : ReportLine where
  name := process.getName
  sent := process.sentCount
  received := process.receivedCount
  queue := process.queue.size

def Program.report (p : Program Q) : Report where
  messagesSent := p.system.logger.totalSent
  messagesReceived := p.system.logger.totalReceived
  messagesDropped := p.system.logger.totalDropped
  processes := (List.range p.numProcesses).map fun i =>
    (p.system.processes (Program.processID i)).reportLine

namespace System

variable {s next : System Q} {act : Action} {acts : List Action} {registry : Finset ℤ}

/-! ## A system at rest -/

/-- No thread is inside `sendMessage`, none delivers and no process runs. -/
structure Resting (s : System Q) : Prop where
  calls : s.calls = []
  dispatcher : s.dispatcher = .iteration
  processes : ∀ id ∈ s.registry, (s.processes id).point = .stopped

/-- What was sent is what was sent in the name of each process. -/
theorem sum_sentBy (known : ∀ ticket ∈ s.sent, ticket.original.senderID ∈ registry) :
    ∑ id ∈ registry, s.sentBy id = s.sent.length := by
  have senders : ∀ id ∈ (s.sent.map (·.original.senderID) : Multiset ℤ), id ∈ registry := by
    intro id member
    obtain ⟨ticket, sent, rfl⟩ := List.mem_map.mp (Multiset.mem_coe.mp member)
    exact known ticket sent
  have counted := Multiset.sum_count_eq_card senders
  rw [Multiset.coe_card, List.length_map] at counted
  rw [← counted]
  apply Finset.sum_congr rfl
  intro id _
  rw [Multiset.coe_count, List.count, List.countP_map, sentBy]
  rfl

/-- While only processes send, each is registered and sends to another that is. -/
theorem built_of_sent (own : ∀ act ∈ acts, act.Own)
    (run : exec System.step (.initial registry) acts = some s) {ticket : Ticket}
    (sent : ticket ∈ s.sent) : ticket.original.Built registry := by
  have same : s.registry = registry := registry_run run
  rcases sent_from run sent with entered | built
  · exact (own _ entered).elim
  · exact same ▸ built

/-- Messages the processes sent are never discarded. -/
theorem discarded_eq_nil {numProcesses : ℕ} (own : ∀ act ∈ acts, act.Own)
    (run : exec System.step (.initial (registeredIDs numProcesses)) acts = some s) :
    s.discarded = [] := by
  apply List.eq_nil_iff_forall_not_mem.mpr
  intro msg discarded
  have sent := (conserved_run run).mem_sent (mem_located_discarded discarded)
  have built := built_of_sent own run sent
  have atMost := built.atMost
  rw [card_registeredIDs] at atMost
  exact not_discarded run (mem_registeredIDs.mpr ⟨built.atLeast, atMost⟩) msg discarded rfl

/-- **The accounts of a system at rest** in which only processes sent. -/
theorem Resting.accounts {numProcesses : ℕ} (resting : s.Resting) (own : ∀ act ∈ acts, act.Own)
    (run : exec System.step (.initial (registeredIDs numProcesses)) acts = some s)
    (few : s.sent.length < 2 ^ 31) :
    ∑ id ∈ registeredIDs numProcesses, (s.processes id).sentCount =
        s.logger.totalSent + s.logger.totalDropped ∧
      ∑ id ∈ registeredIDs numProcesses,
          ((s.processes id).receivedCount + (s.processes id).queue.size) =
        s.logger.totalReceived ∧
      s.logger.totalSent =
        s.logger.totalReceived + s.rejected.length + s.scheduler.pendingCount := by
  have registry : s.registry = registeredIDs numProcesses := registry_run run
  have stopped : ∀ id ∈ registeredIDs numProcesses, (s.processes id).point = .stopped :=
    fun id known => resting.processes id (registry ▸ known)
  have reconciled := reconciled_run run (takesIDs_of_own own _)
  have issued : s.issuedIDs.length < 2 ^ 31 := by
    rw [length_issuedIDs own run]
    exact few
  have sentCounts : ∑ id ∈ registeredIDs numProcesses, (s.processes id).sentCount =
      s.sent.length := by
    rw [← sum_sentBy fun ticket sent => (built_of_sent own run sent).sender]
    apply Finset.sum_congr rfl
    intro id known
    obtain ⟨counted, named⟩ := counted_run run id
    have outside : acts.countP (Action.entersAs id) = 0 := by
      apply List.countP_eq_zero.mpr
      intro act member enters
      cases act with
      | enter msg => exact own _ member
      | _ => cases enters
    have settled := counted.sends
    rw [stopped id known] at settled
    rw [named, outside, Nat.zero_add]
    exact settled
  have receivedCounts : s.accepted = ∑ id ∈ registeredIDs numProcesses,
      ((s.processes id).receivedCount + (s.processes id).queue.size) := by
    rw [accepted, registry]
    apply Finset.sum_congr rfl
    intro id known
    rw [reconciled.receives issued id, Process.owed, stopped id known]
    rfl
  have sent := reconciled.sends.sent
  have dropped := reconciled.sends.dropped
  have logged := reconciled.deliveries.logged
  have stored := reconciled.deliveries.stored
  have balanced := balanced_run run
  have passed := passed_run run
  rw [resting.calls, List.countP_nil] at sent dropped
  rw [resting.dispatcher] at logged stored
  unfold Balanced drawing failures at balanced
  rw [resting.calls, resting.dispatcher, discarded_eq_nil own run] at balanced
  unfold Passed at passed
  rw [resting.calls] at passed
  simp only [List.countP_nil, DispatcherPoint.uncounted, DispatcherPoint.unlogged,
    DispatcherPoint.stored, List.length_nil] at logged stored balanced passed
  omega

end System

/-! ## The end of the program -/

namespace Program

variable {p next : Program Q} {act : ProgramAction}

theorem Closing.calls_eq_nil (closing : p.Closing) (finished : p.main = .finished) :
    p.system.calls = [] := by
  have none : ∀ i ∈ Finset.range p.numProcesses,
      (if processID i ∈ p.system.calls.filterMap SendCall.owner then 1 else 0) = 0 := by
    intro i member
    refine if_neg fun waits => ?_
    have point := (closing.tracked.sending_iff (processID i)).mpr waits
    have fits := closing.placed.process (processID i)
    rw [closing.tracked.supervised.joined i (Finset.mem_range.mp member)
      (by rw [finished]; trivial), point] at fits
    cases fits
  have few := closing.calls_length_le
  rw [Finset.sum_eq_zero none] at few
  exact List.length_eq_zero_iff.mp (Nat.le_zero.mp few)

/-- **At the end every thread is at rest.** -/
theorem resting_of_finished (closing : p.Closing) (finished : p.main = .finished) :
    p.system.Resting where
  calls := closing.calls_eq_nil finished
  dispatcher := by
    refine closing.placed.dispatcher ?_
    rw [(closing.all_returned finished).1]
    exact LoopPoint.noConfusion
  processes := by
    intro id known
    rw [closing.tracked.supervised.registry, finished] at known
    have fits := closing.placed.process id
    rw [(closing.all_returned finished).2 id known] at fits
    exact fits

/-- Nothing the report shows changes after the end. -/
theorem report_final (closing : p.Closing) (finished : p.main = .finished)
    (taken : p.step act = some next) : next.report = p.report := by
  have supervised := closing.tracked.supervised
  have noThread : ∀ id, p.loop id ≠ .checking ∧ p.loop id ≠ .inside := by
    intro id
    by_cases there : p.loop id = .absent
    · rw [there]
      exact ⟨LoopPoint.noConfusion, LoopPoint.noConfusion⟩
    · obtain ⟨i, below, rfl, -⟩ := supervised.created id there
      rw [supervised.joined i below (by rw [finished]; trivial)]
      exact ⟨LoopPoint.noConfusion, LoopPoint.noConfusion⟩
  have dispatcher := (closing.all_returned finished).1
  cases closing.move taken with
  | joinDispatcher point => cases finished.symm.trans point
  | join i point => cases finished.symm.trans point
  | finish act i messages globalStop timer point => cases finished.symm.trans point
  | interrupt => rfl
  | leave id checks => exact absurd checks (noThread id).1
  | leaveDispatcher checks => cases dispatcher.symm.trans checks
  | thread act system enabled stepped =>
      exfalso
      cases act with
      | generateMessageID => cases finished.symm.trans enabled.2
      | enter msg => cases finished.symm.trans enabled.2
      | start id => exact enabled
      | stop id => exact enabled
      | send id targetID msgPrio timestamp => exact (noThread id).2 enabled
      | run id => exact (noThread id).2 enabled
      | proceed index drop =>
          obtain ⟨front, back, call, calls, -⟩ := System.calls_proceed stepped
          rw [closing.calls_eq_nil finished] at calls
          exact absurd calls.symm (List.append_ne_nil_of_right_ne_nil front (List.cons_ne_nil _ _))
      | dispatch => cases dispatcher.symm.trans enabled

/-- A step of the program writes to the log, or leaves it. -/
theorem logger_step (taken : p.step act = some next) :
    ∃ records, next.system.logger = p.system.logger.logAll records := by
  have tested (act : Action) :
      ∃ records, (attempt System.step p.system act).logger = p.system.logger.logAll records := by
    cases stepped : p.system.step act with
    | none =>
        rw [attempt, stepped]
        exact ⟨[], rfl⟩
    | some system =>
        rw [attempt, stepped]
        exact System.logger_step (System.step_kind stepped)
  cases step_move taken with
  | register i => exact ⟨_, rfl⟩
  | pass act messages => exact ⟨_, rfl⟩
  | enter id => exact tested (.start id)
  | leave id => exact tested (.stop id)
  | thread act system enabled stepped =>
      rw [afterStep_system]
      exact System.logger_step (System.step_kind stepped)
  | _ => exact ⟨[], rfl⟩

theorem recorded_run {mode : Mode} {numProcesses : ℕ} {acts : List ProgramAction}
    (run : exec Program.step (.initial mode numProcesses) acts = some p) :
    p.system.logger.Recorded := by
  refine exec_invariant (fun p : Program Q => p.system.logger.Recorded)
    (fun p act next recorded taken => ?_) Logger.Recorded.initial run
  obtain ⟨records, written⟩ := logger_step taken
  rw [written]
  exact recorded.logAll records

/-- What is printed of the processes adds up to what is counted of those registered. -/
theorem sum_report (p : Program Q) (value : ReportLine → ℕ) :
    (p.report.processes.map value).sum =
      ∑ id ∈ registeredIDs p.numProcesses, value (p.system.processes id).reportLine := by
  have ids : registeredIDs p.numProcesses = (Finset.range p.numProcesses).image processID := rfl
  rw [report, List.map_map, ids, Finset.sum_image fun i _ j _ same => processID_injective same,
    ← List.toFinset_range, List.sum_toFinset _ List.nodup_range]
  rfl

end Program

/-- **The final statistics add up.** Whatever the number of processes and the interleaving,
without stress tests: at the end the messages the processes sent are those printed as sent or
dropped, those they received or still have in their inboxes are those printed as received,
the rest of those sent pend in the scheduler or were rejected by a full inbox, and nothing that
happens later changes what is printed. -/
theorem finalStatistics {Q : PriorityQueue (Message Ticket) MessageComparator}
    {mode : Mode} {numProcesses : ℕ} {acts : List ProgramAction} {p : Program Q}
    (plain : mode ≠ .stressTest)
    (run : exec Program.step (.initial mode numProcesses) acts = some p)
    (finished : p.main = .finished) (few : p.system.sent.length < 2 ^ 31) :
    (p.report.processes.map ReportLine.sent).sum =
        p.report.messagesSent + p.report.messagesDropped ∧
      (p.report.processes.map fun line => line.received + line.queue).sum =
        p.report.messagesReceived ∧
      p.report.messagesSent =
        p.report.messagesReceived + p.system.rejected.length + p.system.scheduler.pendingCount ∧
      ∀ act next, p.step act = some next → next.report = p.report := by
  have closing := Program.closing_of_run run (by rw [finished]; trivial)
  obtain ⟨build, numbers⟩ := Program.settings_run run
  obtain ⟨schedule, image, -, refines⟩ := Program.exists_refines run
  have same := refines.same
  have reached := refines.run
  have resting := Program.resting_of_finished closing finished
  rw [finished, numbers] at reached
  rw [same] at resting few
  have atRest : image.Resting := ⟨resting.calls, resting.dispatcher, resting.processes⟩
  obtain ⟨sent, received, left⟩ :=
    atRest.accounts (refines.own (build ▸ plain)) reached few
  have processes : image.processes = p.system.processes := (congrArg System.processes same).symm
  have rejected : image.rejected = p.system.rejected := (congrArg System.rejected same).symm
  have scheduler : image.scheduler = p.system.scheduler := (congrArg System.scheduler same).symm
  rw [← refines.counts.totalSent, ← refines.counts.totalDropped, processes] at sent
  rw [← refines.counts.totalReceived, processes] at received
  rw [← refines.counts.totalSent, ← refines.counts.totalReceived, rejected, scheduler] at left
  refine ⟨?_, ?_, left, fun act next => Program.report_final closing finished⟩
  · rw [Program.sum_report, numbers]
    exact sent
  · rw [Program.sum_report, numbers]
    exact received

/-- A process sends once, its message is delivered, and the user ends the simulation. -/
theorem finalStatistics_oneMessage :
    let acts := List.replicate 10 .main ++ [.checkRunning 1, .thread (.send 1 2 .low ""),
        .thread (.proceed 0 false), .thread (.proceed 0 false), .thread (.proceed 0 false)] ++
      List.replicate 6 (.thread (.run 1)) ++ .checkDispatcher ::
      List.replicate 5 (.thread .dispatch) ++ .interrupt :: List.replicate 6 .main ++
      [.checkRunning 1, .checkRunning 2, .checkDispatcher] ++ List.replicate 4 .main
    ∃ p : Program (PriorityQueue.scanned MessageComparator),
      exec Program.step (.initial .noGUI 2) acts = some p ∧ p.main = .finished ∧
        p.report.messagesSent = 1 ∧ (p.report.processes.map ReportLine.sent).sum = 1 := by
  intro acts
  have reached : (exec (Program.step (Q := PriorityQueue.scanned MessageComparator))
      (.initial .noGUI 2) acts).any (fun p => decide (p.main = .finished ∧
        p.system.sent.length < 2 ^ 31 ∧ p.report.messagesSent = 1 ∧
        p.report.messagesDropped = 0)) = true := by
    decide +kernel
  obtain ⟨p, run, holds⟩ := (Option.any_eq_true _ _).mp reached
  obtain ⟨finished, few, sent, dropped⟩ := of_decide_eq_true holds
  have total := (finalStatistics Mode.noConfusion run finished few).1
  rw [sent, dropped] at total
  exact ⟨p, run, finished, sent, total⟩

/-- **The log shown and the counts printed are those of the log written.** At any time, what the
window shows of the log are its last lines, as many as it asks for and are kept; and the three
numbers printed are those of the records of these events. -/
theorem logShown {Q : PriorityQueue (Message Ticket) MessageComparator} {mode : Mode}
    {numProcesses : ℕ} {acts : List ProgramAction} {p : Program Q}
    (run : exec Program.step (.initial mode numProcesses) acts = some p) :
    (∀ count, p.system.logger.getRecentLogs count =
        (p.system.logger.records.map LogRecord.line).drop
          (p.system.logger.records.length - min count Logger.maxRecent)) ∧
      p.system.logger.recentLogs.length ≤ Logger.maxRecent ∧
      p.report.messagesSent = p.system.logger.records.countP (fun r => r.event = .msgSent) ∧
      p.report.messagesReceived =
        p.system.logger.records.countP (fun r => r.event = .msgReceived) ∧
      p.report.messagesDropped =
        p.system.logger.records.countP (fun r => r.event = .msgDropped) := by
  have recorded := Program.recorded_run run
  refine ⟨recorded.getRecentLogs_eq, ?_, recorded.totalSent, recorded.totalReceived,
    recorded.totalDropped⟩
  rw [recorded.recentLogs, List.length_drop, List.length_map]
  omega

/-- Before the first process is registered the log has the four lines of the start. -/
theorem logShown_started :
    ∃ p : Program (PriorityQueue.scanned MessageComparator),
      exec Program.step (.initial .noGUI 2) [.main] = some p ∧
      (p.system.logger.getRecentLogs 1) = ["[INFO    ] Msg loss:   5%"] ∧
      p.system.logger.getRecentLogs 1 = (p.system.logger.records.map LogRecord.line).drop
        (p.system.logger.records.length - min 1 Logger.maxRecent) := by
  have reached : (exec (Program.step (Q := PriorityQueue.scanned MessageComparator))
      (.initial .noGUI 2) [.main]).any (fun p => decide (
        p.system.logger.getRecentLogs 1 = ["[INFO    ] Msg loss:   5%"])) = true := by
    decide +kernel
  obtain ⟨p, run, last⟩ := (Option.any_eq_true _ _).mp reached
  exact ⟨p, run, of_decide_eq_true last, (logShown run).1 1⟩

end MessagePassing
