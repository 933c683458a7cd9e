import MessagePassing.Foundation.Transition
import MessagePassing.System.Supervision
import Mathlib.Algebra.BigOperators.Ring.Finset
import Mathlib.Algebra.Group.Action.Defs
import Mathlib.Algebra.Order.BigOperators.Group.Finset

/-! # Graceful shutdown

Once `main` has cleared every flag, each thread finishes its turn at most and returns:
every step lowers the work left (`Program.work_step`), whoever takes it. Unless a process is
alone, and looks for a receiver for ever, some thread can always go on
(`Program.exists_step_of_unfinished`), so `main` joins all threads and the program ends
(`gracefulShutdown`).
-/

namespace MessagePassing

open Transition

variable {Q : PriorityQueue (Message Ticket) MessageComparator}

/-! ## The work left -/

/-- The steps a thread inside `sendMessage` has left. -/
def SendStage.rest : SendStage → ℕ
  | .entered => 3
  | .counted => 2
  | .dropped | .queued => 1

/-- The steps a process has left in its turn, with those of its call. -/
def ProcessPoint.rest : ProcessPoint → ℕ
  | .stopped => 0
  | .send => 11
  | .sending | .countSent => 7
  | .receive => 6
  | .block => 5
  | .retry => 4
  | .unblock _ => 3
  | .check _ => 2
  | .report _ => 1

/-- The steps the dispatcher has left in its iteration. -/
def DispatcherPoint.rest : DispatcherPoint → ℕ
  | .iteration => 5
  | .pick => 4
  | .deliver _ => 3
  | .countDelivered _ => 2
  | .logDelivered _ | .logFull _ | .logUnknown _ => 1

/-- The steps a thread has left until it returns, once its flag is cleared. -/
def LoopPoint.rest (turn : ℕ) : LoopPoint → ℕ
  | .absent | .returned => 0
  | .checking => 1
  | .inside => turn + 1

namespace System

variable {s next : System Q} {act : Action}

/-- The steps the calls have left. -/
def callsRest (s : System Q) : ℕ := (s.calls.map fun call => call.stage.rest).sum

/-- What becomes of the call that goes on: it reaches its next stage, or returns. -/
theorem calls_proceed {index : ℕ} {drop : Bool}
    (taken : s.step (.proceed index drop) = some next) :
    ∃ front back call, s.calls = front ++ call :: back ∧
      (next.calls = front ++ back ∧ call.stage.rest = 1 ∨
        ∃ stage, next.calls = front ++ { call with stage := stage } :: back ∧
          call.stage.rest = stage.rest + 1) := by
  rw [step, sendMessage] at taken
  cases found : s.calls[index]? with
  | none =>
      rw [found] at taken
      cases taken
  | some call =>
      rw [found] at taken
      obtain ⟨inside, here⟩ := List.getElem?_eq_some_iff.mp found
      have replaced (stage : SendStage) : s.calls.set index { call with stage := stage } =
          s.calls.take index ++ { call with stage := stage } :: s.calls.drop (index + 1) := by
        rw [List.set_eq_take_append_cons_drop, if_pos inside]
      have erased : s.calls.eraseIdx index = s.calls.take index ++ s.calls.drop (index + 1) :=
        List.eraseIdx_eq_take_drop_succ ..
      refine ⟨s.calls.take index, s.calls.drop (index + 1), call, ?_, ?_⟩
      · rw [← here, List.getElem_cons_drop, List.take_append_drop]
      · obtain ⟨msg, stage, owner⟩ := call
        cases stage with
        | entered =>
            obtain rfl := Option.some.inj taken
            exact Or.inr ⟨.counted, replaced .counted, rfl⟩
        | counted =>
            cases drop with
            | true =>
                obtain rfl := Option.some.inj taken
                exact Or.inr ⟨.dropped, replaced .dropped, rfl⟩
            | false =>
                obtain rfl := Option.some.inj taken
                exact Or.inr ⟨.queued, replaced .queued, rfl⟩
        | dropped =>
            obtain rfl := Option.some.inj taken
            exact Or.inl ⟨erased, rfl⟩
        | queued =>
            obtain rfl := Option.some.inj taken
            exact Or.inl ⟨erased, rfl⟩

/-- A thread inside `sendMessage` that goes on has one step less to take. -/
theorem callsRest_proceed {index : ℕ} {drop : Bool}
    (taken : s.step (.proceed index drop) = some next) : next.callsRest + 1 = s.callsRest := by
  obtain ⟨front, back, call, split, ⟨later, one⟩ | ⟨stage, later, one⟩⟩ := calls_proceed taken
  · simp only [callsRest, split, later, List.map_append, List.sum_append, List.map_cons,
      List.sum_cons]
    omega
  · simp only [callsRest, split, later, List.map_append, List.sum_append, List.map_cons,
      List.sum_cons]
    omega

/-- A process makes its call when it sends. -/
theorem callsRest_send {id targetID : ℤ} {msgPrio : Priority} {timestamp : String}
    (taken : s.step (.send id targetID msgPrio timestamp) = some next) :
    next.callsRest = s.callsRest + 3 := by
  rw [step, Option.ite_none_right_eq_some, Option.some.injEq] at taken
  obtain ⟨-, rfl⟩ := taken
  simp only [callsRest, enterSend, List.map_append, List.sum_append]
  rfl

/-- The dispatcher has one step less to take in its iteration, or has finished it. -/
theorem rest_dispatch (taken : s.step .dispatch = some next) :
    next.dispatcher = .iteration ∧ 0 < s.dispatcher.rest ∨
      next.dispatcher.rest + 1 ≤ s.dispatcher.rest := by
  cases step_kind taken with
  | control _ _ _ different => exact absurd rfl different
  | age point => exact Or.inr (point ▸ le_rfl)
  | advance point => exact Or.inr (point ▸ le_rfl)
  | pick msg rest point => exact Or.inr (point ▸ le_rfl)
  | idle point => exact Or.inl ⟨rfl, point ▸ Nat.succ_pos _⟩
  | accept msg queue point => exact Or.inr (point ▸ le_rfl)
  | reject msg record point => exact Or.inr (point ▸ Nat.le_succ _)
  | discard msg point => exact Or.inr (point ▸ Nat.le_succ _)
  | countDelivered msg point => exact Or.inr (point ▸ le_rfl)
  | logDelivered msg record point => exact Or.inl ⟨rfl, point ▸ Nat.succ_pos _⟩
  | note msg record point =>
      rcases point with point | point <;> exact Or.inl ⟨rfl, point ▸ Nat.succ_pos _⟩

end System

/-- A process has one step less to take in its turn, or has finished it. -/
theorem Process.Turn.rest {process next : Process Q} {records : List LogRecord}
    (turn : process.Turn next records) :
    next.point = .send ∧ 0 < process.point.rest ∨ next.point.rest + 1 ≤ process.point.rest := by
  cases turn with
  | countSent point => exact Or.inr (point ▸ le_rfl)
  | take out queue point => exact Or.inr (point ▸ Nat.le_add_right 3 3)
  | miss point => exact Or.inr (point ▸ le_rfl)
  | block point => exact Or.inr (point ▸ le_rfl)
  | retake out queue point => exact Or.inr (point ▸ le_rfl)
  | giveUp point => exact Or.inr (point ▸ le_rfl)
  | unblock out point => exact Or.inr (point ▸ le_rfl)
  | count out point => exact Or.inr (point ▸ le_rfl)
  | ignore out point => exact Or.inl ⟨rfl, point ▸ Nat.succ_pos _⟩
  | report out point => exact Or.inl ⟨rfl, point ▸ Nat.succ_pos _⟩

/-- Outside `sendMessage` a process that does not send next can go on. -/
theorem Process.exists_run (process : Process Q) :
    process.point = .stopped ∨ process.point = .send ∨ process.point = .sending ∨
      ∃ result, process.run = some result := by
  obtain ⟨queue, state, point, sentCount, receivedCount, received⟩ := process
  cases point with
  | stopped => exact Or.inl rfl
  | send => exact Or.inr (Or.inl rfl)
  | sending => exact Or.inr (Or.inr (Or.inl rfl))
  | check out =>
      refine Or.inr (Or.inr (Or.inr ?_))
      by_cases valid : out.messageID ≠ 0
      · exact ⟨_, if_pos valid⟩
      · exact ⟨_, if_neg valid⟩
  | _ => exact Or.inr (Or.inr (Or.inr ⟨_, rfl⟩))

/-- What a process pays for a step of its own; a send pays for its call as well. -/
def Action.payment (id : ℤ) : Action → ℕ
  | .send sender _ _ _ => if sender = id then 4 else 0
  | .run runner => if runner = id then 1 else 0
  | _ => 0

namespace Program

variable {p next : Program Q} {act : ProgramAction}

/-- The steps a process has left until it returns, once its flag is cleared. -/
def processRest (p : Program Q) (id : ℤ) : ℕ :=
  (p.loop id).rest (p.system.processes id).point.rest

/-- The steps the threads have left, once every flag is cleared. -/
def threadsRest (p : Program Q) : ℕ :=
  ∑ i ∈ Finset.range p.numProcesses, p.processRest (processID i) + p.system.callsRest +
    p.dispatcherLoop.rest p.system.dispatcher.rest

/-- All steps left, once every flag is cleared; an interrupt is one of them. -/
def work (p : Program Q) : ℕ :=
  p.threadsRest + p.main.remaining p.numProcesses + if p.globalStop then 0 else 1

/-- No step of a thread gives a process more to do, and its own steps are paid for. -/
theorem processRest_thread (tracked : p.Tracked) {act : Action} {system : System Q}
    (enabled : p.Enabled act) (stepped : p.system.step act = some system) (id : ℤ) :
    (p.afterStep system act).processRest id + act.payment id ≤ p.processRest id := by
  unfold processRest
  rw [afterStep_loop, afterStep_system]
  have moved := System.processStep stepped id
  generalize system.processes id = process at moved
  cases moved with
  | keep apart other =>
      have free : act.payment id = 0 := by
        cases act with
        | send sender target prio time =>
            apply if_neg
            rintro rfl
            exact apart target prio time rfl
        | run runner =>
            apply if_neg
            rintro rfl
            exact other rfl
        | _ => rfl
      rw [if_neg fun back => other back.1, free, Nat.add_zero]
  | deliver queue same =>
      rw [same, if_neg fun back => Action.noConfusion back.1]
      exact le_rfl
  | start same => exact (same ▸ enabled : p.Enabled (.start id)).elim
  | stop same => exact (same ▸ enabled : p.Enabled (.stop id)).elim
  | send targetID msgPrio timestamp same sends =>
      subst same
      have inside : p.loop id = .inside := enabled
      rw [if_neg fun back => ProcessPoint.noConfusion back.2, inside, sends, Action.payment,
        if_pos rfl]
      exact le_rfl
  | finish index drop call same member owner =>
      have sending := (tracked.sending_iff id).mpr (List.mem_filterMap.mpr ⟨call, member, owner⟩)
      rw [if_neg fun back => ProcessPoint.noConfusion back.2, sending, same]
      exact le_rfl
  | run process records same turn =>
      subst same
      have inside : p.loop id = .inside := enabled
      rw [inside, Action.payment, if_pos rfl]
      rcases turn.rest with ⟨back, more⟩ | less
      · rw [if_pos ⟨rfl, back⟩]
        exact Nat.succ_le_succ more
      · split
        · exact Nat.succ_le_succ (Nat.zero_lt_of_lt less)
        · exact Nat.succ_le_succ less

/-- Where each process pays its part, all of them pay that of one. -/
theorem processRests_le (tracked : p.Tracked) {payment : ℤ → ℕ}
    (paid : ∀ id, next.processRest id + payment id ≤ p.processRest id)
    (numProcesses : next.numProcesses = p.numProcesses) (id : ℤ) (there : p.loop id ≠ .absent) :
    ∑ i ∈ Finset.range next.numProcesses, next.processRest (processID i) + payment id ≤
      ∑ i ∈ Finset.range p.numProcesses, p.processRest (processID i) := by
  obtain ⟨i, below, rfl, -⟩ := tracked.supervised.created id there
  have all : ∑ i ∈ Finset.range p.numProcesses,
      (next.processRest (processID i) + payment (processID i)) ≤
        ∑ i ∈ Finset.range p.numProcesses, p.processRest (processID i) :=
    Finset.sum_le_sum fun j _ => paid (processID j)
  have one : payment (processID i) ≤ ∑ j ∈ Finset.range p.numProcesses, payment (processID j) :=
    Finset.single_le_sum (fun j _ => Nat.zero_le (payment (processID j)))
      (Finset.mem_range.mpr below)
  rw [Finset.sum_add_distrib] at all
  rw [numProcesses]
  omega

/-- Inside `sendMessage` and in the loops every step lowers the work left. -/
theorem work_thread (tracked : p.Tracked) (elsewhere : p.main ≠ .simulate 0) {act : Action}
    {system : System Q} (enabled : p.Enabled act) (stepped : p.system.step act = some system) :
    (p.afterStep system act).work + 1 ≤ p.work := by
  have paid := processRest_thread tracked enabled stepped
  have numProcesses : (p.afterStep system act).numProcesses = p.numProcesses :=
    afterStep_numProcesses ..
  have unpaid : ∑ i ∈ Finset.range p.numProcesses,
      (p.afterStep system act).processRest (processID i) ≤
        ∑ i ∈ Finset.range p.numProcesses, p.processRest (processID i) :=
    Finset.sum_le_sum fun i _ => (Nat.le_add_right _ _).trans (paid (processID i))
  have own {id : ℤ} (inside : p.loop id = .inside) :=
    processRests_le tracked paid numProcesses id (by rw [inside]; decide)
  have dispatcher (other : act ≠ .dispatch) :
      (p.afterStep system act).dispatcherLoop.rest system.dispatcher.rest =
        p.dispatcherLoop.rest p.system.dispatcher.rest := by
    rw [afterStep_dispatcherLoop, if_neg fun back => other back.1,
      System.dispatcher_step (System.step_kind stepped) other]
  unfold work threadsRest
  simp only [afterStep_numProcesses, afterStep_system, afterStep_main, afterStep_globalStop]
  cases act with
  | generateMessageID => exact absurd enabled.2 elsewhere
  | enter => exact absurd enabled.2 elsewhere
  | start => exact enabled.elim
  | stop => exact enabled.elim
  | send id targetID msgPrio timestamp =>
      have paid := own enabled
      rw [Action.payment, if_pos rfl, numProcesses] at paid
      rw [dispatcher Action.noConfusion, System.callsRest_send stepped]
      omega
  | proceed index drop =>
      have calls := System.callsRest_proceed stepped
      rw [dispatcher Action.noConfusion]
      omega
  | run id =>
      have paid := own enabled
      rw [Action.payment, if_pos rfl, numProcesses] at paid
      have calls : system.callsRest = p.system.callsRest := by
        obtain ⟨result, -, rfl⟩ := Option.map_eq_some_iff.mp stepped
        rfl
      rw [dispatcher Action.noConfusion, calls]
      omega
  | dispatch =>
      have inside : p.dispatcherLoop = .inside := enabled
      have calls : system.callsRest = p.system.callsRest := by
        cases System.step_kind stepped <;> rfl
      rw [afterStep_dispatcherLoop, inside, calls]
      rcases System.rest_dispatch stepped with ⟨back, more⟩ | less
      · rw [if_pos ⟨rfl, back⟩]
        simp only [LoopPoint.rest]
        omega
      · split <;>
        · simp only [LoopPoint.rest]
          omega

/-- The timer counts behind the window only, and is there when `main` waits for it. -/
structure Timed (p : Program Q) : Prop where
  counting : ∀ turns, p.timer = .counting turns → p.mode = .gui ∧ p.main.simulating
  awaited : p.mode = .gui → p.main.simulating → p.timer ≠ .absent
  joined : p.main = .joinTimer → p.mode = .gui

theorem Timed.initial (mode : Mode) (numProcesses : ℕ) :
    (initial mode numProcesses : Program Q).Timed where
  counting _ counting := TimerPoint.noConfusion counting
  awaited _ := False.elim
  joined waits := MainPoint.noConfusion waits

theorem Timed.pass (timed : p.Timed) {main : MainPoint} {timer : TimerPoint}
    (passes : p.main.Passes p.numProcesses main) (times : p.Times main timer)
    (messages : List String) (globalStop : Bool) : ({ p with
      system := p.system.info messages
      globalStop := globalStop
      timer := timer
      main := main } : Program Q).Timed := by
  have created := times.created
  by_cases started : p.main = .logStarted ∧ p.mode = .gui
  · rw [if_pos started] at created
    subst created
    rw [started.1] at passes
    cases passes
    exact ⟨fun _ _ => ⟨started.2, trivial⟩, fun _ _ => TimerPoint.noConfusion,
      MainPoint.noConfusion⟩
  · rw [if_neg started] at created
    subst created
    refine ⟨fun turns counting => ?_, fun window runs => ?_, times.closed⟩
    · obtain ⟨window, runs⟩ := timed.counting turns counting
      refine ⟨window, (passes.simulating runs).resolve_right fun ending => ?_⟩
      cases counting.symm.trans (times.joined ending window)
    · apply timed.awaited window
      exact (passes.simulating_before runs).resolve_right fun start => started ⟨start, window⟩

theorem Timed.step (timed : p.Timed) (taken : p.step act = some next) : next.Timed := by
  have elsewhere (before : ¬ p.main.simulating) (after : ¬ next.main.simulating)
      (timer : next.timer = p.timer) : next.Timed := by
    refine ⟨fun turns counting => ?_, fun _ runs => absurd runs after, fun waits => ?_⟩
    · exact absurd (timed.counting turns (timer ▸ counting)).2 before
    · rw [waits] at after
      exact absurd trivial after
  cases step_move taken with
  | register i point => exact elsewhere (by rw [point]; exact id) id rfl
  | startDispatcher point => exact elsewhere (by rw [point]; exact id) id rfl
  | start i point => exact elsewhere (by rw [point]; exact id) id rfl
  | stop i point => exact elsewhere (by rw [point]; exact id) id rfl
  | stopDispatcher point => exact elsewhere (by rw [point]; exact id) id rfl
  | joinDispatcher point => exact elsewhere (by rw [point]; exact id) id rfl
  | join i point => exact elsewhere (by rw [point]; exact id) id rfl
  | pass _ messages globalStop timer main _ _ passes _ times =>
      exact timed.pass passes times messages globalStop
  | tick turns globalStop timer counting present =>
      exact ⟨fun _ _ => timed.counting turns counting, fun _ _ => present, timed.joined⟩
  | thread act system =>
      refine ⟨?_, ?_, ?_⟩
      · simp only [afterStep_mode, afterStep_main, afterStep_timer]
        exact timed.counting
      · simp only [afterStep_mode, afterStep_main, afterStep_timer]
        exact timed.awaited
      · simp only [afterStep_mode, afterStep_main]
        exact timed.joined
  | _ => exact ⟨timed.counting, timed.awaited, timed.joined⟩

/-- A reachable program in which `main` has cleared every flag. -/
structure Closing (p : Program Q) : Prop where
  tracked : p.Tracked
  placed : p.Placed
  timed : p.Timed
  stopped : p.main.dispatcherStopped

theorem closing_of_run {mode : Mode} {numProcesses : ℕ} {acts : List ProgramAction}
    (run : exec Program.step (.initial mode numProcesses) acts = some p)
    (stopped : p.main.dispatcherStopped) : p.Closing := by
  obtain ⟨tracked, placed⟩ := placed_run run
  exact ⟨tracked, placed, exec_invariant Timed (fun _ _ _ timed taken => timed.step taken)
    (.initial mode numProcesses) run, stopped⟩

theorem Closing.elsewhere (closing : p.Closing) : p.main ≠ .simulate 0 := by
  intro point
  have stopped := closing.stopped
  rw [point] at stopped
  exact stopped

/-- No process is told to go on. -/
theorem Closing.not_running (closing : p.Closing) (id : ℤ) : p.running id = false := by
  by_contra set
  obtain ⟨i, -, -, going⟩ :=
    closing.tracked.supervised.running id (Bool.not_eq_false _ ▸ set)
  have stopped := closing.stopped
  apply going
  cases point : p.main <;> rw [point] at stopped <;> first | exact stopped.elim | trivial

/-- Once every flag is cleared, the steps are those that end turns, return and join. -/
inductive ClosingMove (p : Program Q) : ProgramAction → Program Q → Prop
  | joinDispatcher : p.main = .joinDispatcher → p.dispatcherLoop = .returned →
      ClosingMove p .main { p with main := .join 0 }
  | join (i : ℕ) : p.main = .join i → i < p.numProcesses → p.loop (processID i) = .returned →
      ClosingMove p .main { p with main := .join (i + 1) }
  | finish (act : ProgramAction) (i : ℕ) (messages : List String) (globalStop : Bool)
      (timer : TimerPoint) : p.main = .join i → p.numProcesses ≤ i → (p.globalStop → globalStop) →
      ClosingMove p act { p with
        system := p.system.info messages
        globalStop := globalStop
        timer := timer
        main := .finished }
  | interrupt : p.globalStop = false → ClosingMove p .interrupt { p with globalStop := true }
  | leave (id : ℤ) : p.loop id = .checking →
      ClosingMove p (.checkRunning id) { p with
        system := attempt System.step p.system (.stop id)
        loop := Function.update p.loop id .returned }
  | leaveDispatcher : p.dispatcherLoop = .checking →
      ClosingMove p .checkDispatcher { p with dispatcherLoop := .returned }
  | thread (act : Action) (system : System Q) : p.Enabled act → p.system.step act = some system →
      ClosingMove p (.thread act) (p.afterStep system act)

theorem Closing.move (closing : p.Closing) (taken : p.step act = some next) :
    ClosingMove p act next := by
  have stopped := closing.stopped
  cases step_move taken with
  | register i point => exact (point ▸ stopped : (MainPoint.register i).dispatcherStopped).elim
  | startDispatcher point =>
      exact (point ▸ stopped : MainPoint.startDispatcher.dispatcherStopped).elim
  | start i point => exact (point ▸ stopped : (MainPoint.start i).dispatcherStopped).elim
  | stop i point => exact (point ▸ stopped : (MainPoint.stop i).dispatcherStopped).elim
  | stopDispatcher point =>
      exact (point ▸ stopped : MainPoint.stopDispatcher.dispatcherStopped).elim
  | joinDispatcher point returned => exact .joinDispatcher point returned
  | join i point more returned => exact .join i point more returned
  | pass _ messages globalStop timer main _ kept passes =>
      cases point : p.main with
      | join i =>
          rw [point] at passes
          cases passes with
          | joined _ all => exact .finish _ i messages globalStop timer point all kept
      | finished =>
          rw [point] at passes
          cases passes
      | joinDispatcher =>
          rw [point] at passes
          cases passes
      | _ =>
          rw [point] at stopped
          exact stopped.elim
  | interrupt running => exact .interrupt running
  | tick turns globalStop timer counting =>
      have runs := (closing.timed.counting turns counting).2
      cases point : p.main <;> rw [point] at stopped runs <;>
        first | exact stopped.elim | exact runs.elim
  | enter id checks running => cases running.symm.trans (closing.not_running id)
  | leave id checks => exact .leave id checks
  | checkDispatcher checks =>
      have cleared : p.dispatcherRunning = false := by
        by_contra set
        exact closing.tracked.supervised.dispatcherRunning (Bool.not_eq_false _ ▸ set) stopped
      have returns : (if p.dispatcherRunning then LoopPoint.inside else .returned) = .returned :=
        if_neg (Bool.eq_false_iff.mp cleared)
      rw [returns]
      exact .leaveDispatcher checks
  | thread act system enabled stepped => exact .thread act system enabled stepped

theorem Closing.step (closing : p.Closing) (taken : p.step act = some next) : next.Closing where
  tracked := closing.tracked.step taken
  placed := closing.placed.step closing.tracked taken
  timed := closing.timed.step taken
  stopped := by
    have stopped := closing.stopped
    cases closing.move taken with
    | thread act system => exact (afterStep_main p system act).symm ▸ stopped
    | joinDispatcher => trivial
    | join => trivial
    | finish => trivial
    | _ => exact stopped

/-- A process that returns has nothing left to do. -/
theorem processRest_leave {id : ℤ} (checks : p.loop id = .checking) (i : ℤ) :
    ({ p with
      system := attempt System.step p.system (.stop id)
      loop := Function.update p.loop id .returned } : Program Q).processRest i +
        (if i = id then 1 else 0) ≤ p.processRest i := by
  unfold processRest
  rw [System.attempt_stop]
  dsimp only
  by_cases here : i = id
  · rw [here, Function.update_self, checks, if_pos rfl]
    exact le_rfl
  · rw [Function.update_of_ne here, System.setProcess_other _ _ here, if_neg here]
    exact le_rfl

/-- **Every step of a shutdown counts.** Once every flag is cleared each step, of whichever
thread, leaves less to do. -/
theorem Closing.work_step (closing : p.Closing) (taken : p.step act = some next) :
    next.work + 1 ≤ p.work := by
  cases closing.move taken with
  | joinDispatcher point =>
      change p.threadsRest + _ + _ + 1 ≤ p.threadsRest + _ + _
      rw [point]
      simp only [MainPoint.remaining]
      omega
  | join i point more =>
      change p.threadsRest + _ + _ + 1 ≤ p.threadsRest + _ + _
      rw [point]
      simp only [MainPoint.remaining]
      omega
  | finish _ i messages globalStop timer point all kept =>
      change p.threadsRest + _ + _ + 1 ≤ p.threadsRest + _ + _
      have flag : (if globalStop then 0 else 1) ≤ if p.globalStop then 0 else 1 := by
        by_cases set : p.globalStop = true
        · rw [kept set, set]
        · rw [if_neg set]
          split <;> decide
      rw [point]
      simp only [MainPoint.remaining]
      omega
  | interrupt running =>
      change p.threadsRest + _ + 0 + 1 ≤ p.threadsRest + _ + _
      rw [running]
      exact le_rfl
  | leave id checks =>
      have there : p.loop id ≠ .absent := by rw [checks]; decide
      have paid := processRests_le closing.tracked (processRest_leave checks) rfl id there
      dsimp only at paid
      have calls : (attempt System.step p.system (.stop id)).callsRest = p.system.callsRest := by
        rw [System.attempt_stop]
        rfl
      have dispatcher : (attempt System.step p.system (.stop id)).dispatcher =
          p.system.dispatcher := by
        rw [System.attempt_stop]
        rfl
      rw [if_pos rfl] at paid
      unfold work threadsRest
      dsimp only
      rw [calls, dispatcher]
      omega
  | leaveDispatcher checks =>
      change ∑ i ∈ Finset.range p.numProcesses, p.processRest (processID i) + p.system.callsRest +
        0 + p.main.remaining p.numProcesses + (if p.globalStop then 0 else 1) + 1 ≤ p.work
      rw [work, threadsRest, checks, LoopPoint.rest]
      omega
  | thread act system enabled stepped =>
      exact work_thread closing.tracked closing.elsewhere enabled stepped

/-! ## How much work is left -/

theorem processRest_le (p : Program Q) (id : ℤ) : p.processRest id ≤ 12 := by
  unfold processRest
  cases p.loop id with
  | inside =>
      apply Nat.succ_le_succ
      cases (p.system.processes id).point <;> simp only [ProcessPoint.rest] <;> decide
  | checking => exact (by decide : 1 ≤ 12)
  | _ => exact Nat.zero_le 12

/-- A process has less to do itself while it waits for its call. -/
theorem processRest_sending (tracked : p.Tracked) {id : ℤ}
    (waits : id ∈ p.system.calls.filterMap SendCall.owner) : p.processRest id ≤ 8 := by
  rw [processRest, (tracked.sending_iff id).mpr waits]
  cases p.loop id <;> simp only [LoopPoint.rest, ProcessPoint.rest] <;> decide

/-- There are no more calls than processes that wait for one. -/
theorem Closing.calls_length_le (closing : p.Closing) : p.system.calls.length ≤
    ∑ i ∈ Finset.range p.numProcesses,
      if processID i ∈ p.system.calls.filterMap SendCall.owner then 1 else 0 := by
  have owned : (p.system.calls.filterMap SendCall.owner).length = p.system.calls.length := by
    rw [List.filterMap_length_eq_length]
    intro call inside
    exact Option.isSome_iff_ne_none.mpr (closing.placed.owned closing.elsewhere inside)
  have distinct := List.toFinset_card_of_nodup closing.tracked.threads.once
  rw [← owned, ← distinct, ← Finset.card_filter]
  have among : (p.system.calls.filterMap SendCall.owner).toFinset ⊆
      ((Finset.range p.numProcesses).filter fun i =>
        processID i ∈ p.system.calls.filterMap SendCall.owner).image processID := by
    intro id member
    have waits := List.mem_toFinset.mp member
    have there : p.loop id ≠ .absent := by
      intro absent
      have fits := closing.placed.process id
      rw [absent, (closing.tracked.sending_iff id).mpr waits] at fits
      cases fits
    obtain ⟨i, below, rfl, -⟩ := closing.tracked.supervised.created id there
    exact Finset.mem_image_of_mem processID
      (Finset.mem_filter.mpr ⟨Finset.mem_range.mpr below, waits⟩)
  exact (Finset.card_le_card among).trans Finset.card_image_le

/-- What the processes have left to do, with their calls. -/
theorem Closing.calls_le (closing : p.Closing) :
    ∑ i ∈ Finset.range p.numProcesses, p.processRest (processID i) + p.system.callsRest ≤
      12 * p.numProcesses := by
  have calls : p.system.callsRest ≤ p.system.calls.length * 3 := by
    have bounded := List.sum_le_card_nsmul (p.system.calls.map fun call => call.stage.rest) 3
    rw [List.length_map, smul_eq_mul] at bounded
    apply bounded
    intro rest member
    obtain ⟨call, -, rfl⟩ := List.mem_map.mp member
    cases call.stage <;> simp only [SendStage.rest] <;> decide
  have counted := closing.calls_length_le
  have terms : ∑ i ∈ Finset.range p.numProcesses, (p.processRest (processID i) +
      (if processID i ∈ p.system.calls.filterMap SendCall.owner then 1 else 0) * 3) ≤
        ∑ _i ∈ Finset.range p.numProcesses, 12 := by
    apply Finset.sum_le_sum
    intro i _
    split
    · rename_i waits
      have waiting := processRest_sending closing.tracked waits
      omega
    · exact processRest_le p (processID i)
  rw [Finset.sum_add_distrib, ← Finset.sum_mul, Finset.sum_const, Finset.card_range,
    smul_eq_mul] at terms
  omega

/-- What a shutdown takes at most. -/
theorem Closing.work_le (closing : p.Closing) : p.work ≤ 13 * p.numProcesses + 9 := by
  have processes := closing.calls_le
  have dispatcher : p.dispatcherLoop.rest p.system.dispatcher.rest ≤ 6 := by
    cases p.dispatcherLoop with
    | inside =>
        apply Nat.succ_le_succ
        cases p.system.dispatcher <;> simp only [DispatcherPoint.rest] <;> decide
    | checking => exact (by decide : 1 ≤ 6)
    | _ => exact Nat.zero_le 6
  have main : p.main.remaining p.numProcesses ≤ p.numProcesses + 2 := by
    have stopped := closing.stopped
    cases point : p.main with
    | joinDispatcher => exact le_rfl
    | join i =>
        simp only [MainPoint.remaining]
        omega
    | finished => exact Nat.zero_le _
    | _ =>
        rw [point] at stopped
        exact stopped.elim
  have flag : (if p.globalStop then 0 else 1) ≤ 1 := by
    split <;> decide
  unfold work threadsRest
  omega

/-! ## Nothing is stuck -/

theorem exists_thread (act : Action) (enabled : p.Enabled act)
    (able : ∃ system, p.system.step act = some system) :
    ∃ act next, act ≠ .interrupt ∧ p.step act = some next := by
  obtain ⟨system, stepped⟩ := able
  refine ⟨.thread act, p.afterStep system act, ProgramAction.noConfusion, ?_⟩
  rw [step, if_pos enabled, stepped, Option.map_some]

/-- Of two processes or more, each finds one to send to. -/
theorem exists_peer {i numProcesses : ℕ} (below : i < numProcesses) (peers : numProcesses ≠ 1) :
    ∃ target, 1 ≤ target ∧ target ≤ (numProcesses : ℤ) ∧ target ≠ processID i := by
  unfold processID
  by_cases first : i = 0
  · exact ⟨2, by omega, by omega, by omega⟩
  · exact ⟨1, by omega, by omega, by omega⟩

/-- A process inside its loop can go on, unless it is alone. -/
theorem Closing.exists_inside (closing : p.Closing) (peers : p.numProcesses ≠ 1) {i : ℕ}
    (below : i < p.numProcesses) (inside : p.loop (processID i) = .inside)
    (returned : p.system.calls = []) :
    ∃ act next, act ≠ .interrupt ∧ p.step act = some next := by
  have fits := closing.placed.process (processID i)
  rw [inside] at fits
  rcases (p.system.processes (processID i)).exists_run with stopped | sends | sending |
    ⟨result, ran⟩
  · exact absurd stopped fits
  · obtain ⟨target, atLeast, atMost, other⟩ := exists_peer below peers
    have count : p.system.registry.card = p.numProcesses := by
      rw [closing.tracked.supervised.registry, card_registeredIDs]
      exact MainPoint.registered_of_begun
        (closing.tracked.supervised.begun (by rw [inside]; decide)) _
    refine exists_thread (.send (processID i) target .low "") inside ?_
    exact System.exists_send_iff.mpr ⟨sends, atLeast, count ▸ atMost, other⟩
  · have waits := (closing.tracked.sending_iff _).mp sending
    rw [returned] at waits
    cases waits
  · exact exists_thread (.run (processID i)) inside
      ⟨_, Option.map_eq_some_iff.mpr ⟨result, ran, rfl⟩⟩

/-- With no process alone, `main` waits for a thread that can go on. -/
theorem Closing.exists_join (closing : p.Closing) (peers : p.numProcesses ≠ 1)
    (returned : p.system.calls = []) (joined : p.dispatcherLoop = .returned)
    (unfinished : p.main ≠ .finished) : ∃ act next, act ≠ .interrupt ∧ p.step act = some next := by
  have stopped := closing.stopped
  cases point : p.main with
  | joinDispatcher =>
      refine ⟨.main, { p with main := .join 0 }, ProgramAction.noConfusion, ?_⟩
      rw [Program.step, mainStep, point]
      exact if_pos joined
  | join i =>
      by_cases more : i < p.numProcesses
      · cases loop : p.loop (processID i) with
        | absent =>
            refine absurd loop (closing.tracked.supervised.creates i more ?_)
            rw [point]
            trivial
        | checking =>
            have cleared := Bool.eq_false_iff.mp (closing.not_running (processID i))
            exact ⟨.checkRunning (processID i), _, ProgramAction.noConfusion,
              (if_pos loop).trans (if_neg cleared)⟩
        | inside => exact closing.exists_inside peers more loop returned
        | returned =>
            refine ⟨.main, { p with main := .join (i + 1) }, ProgramAction.noConfusion, ?_⟩
            rw [Program.step, mainStep, point]
            exact (if_pos more).trans (if_pos loop)
      · refine ⟨.main, { p with main := .finished }, ProgramAction.noConfusion, ?_⟩
        rw [Program.step, mainStep, point]
        exact if_neg more
  | finished => exact absurd point unfinished
  | _ =>
      rw [point] at stopped
      exact stopped.elim

/-- **No shutdown hangs.** Until `main` is done some thread can go on, unless a process is
alone. -/
theorem Closing.exists_step (closing : p.Closing) (peers : p.numProcesses ≠ 1)
    (unfinished : p.main ≠ .finished) : ∃ act next, act ≠ .interrupt ∧ p.step act = some next := by
  have begun : p.main.dispatcherStarted := by
    have stopped := closing.stopped
    cases point : p.main <;> rw [point] at stopped <;> first | exact stopped.elim | trivial
  by_cases returned : p.system.calls = []
  · cases loop : p.dispatcherLoop with
    | absent => exact absurd loop (closing.tracked.supervised.dispatcher.mpr begun)
    | checking =>
        exact ⟨.checkDispatcher, _, ProgramAction.noConfusion, if_pos loop⟩
    | inside => exact exists_thread .dispatch loop ⟨_, rfl⟩
    | returned => exact closing.exists_join peers returned loop unfinished
  · obtain ⟨call, inside⟩ := List.exists_mem_of_ne_nil _ returned
    obtain ⟨index, able⟩ := System.exists_proceed inside false
    exact exists_thread (.proceed index false) trivial able

/-- All threads have returned when `main` is done. -/
theorem Closing.all_returned (closing : p.Closing) (finished : p.main = .finished) :
    p.dispatcherLoop = .returned ∧
      ∀ id ∈ registeredIDs p.numProcesses, p.loop id = .returned := by
  have supervised := closing.tracked.supervised
  refine ⟨supervised.dispatcherJoined (by rw [finished]; trivial), fun id known => ?_⟩
  obtain ⟨atLeast, atMost⟩ := mem_registeredIDs.mp known
  have same : id = processID (id - 1).toNat := by
    unfold processID
    omega
  rw [same]
  exact supervised.joined _ (by omega) (by rw [finished]; trivial)

/-- The shutdown pays for every step. -/
theorem closing_pays : Pays (Program.step (Q := Q)) Closing work fun _ => 1 where
  preserved _ _ _ closing taken := closing.step taken
  paid _ _ _ closing taken := closing.work_step taken

/-- With no process alone a shutdown can be carried through. -/
theorem Closing.exists_finish (closing : p.Closing) (peers : p.numProcesses ≠ 1) :
    ∃ later q, (∀ act ∈ later, act ≠ .interrupt) ∧ exec Program.step p later = some q ∧
      q.Closing ∧ q.main = .finished := by
  have able : ∀ q : Program Q, q.Closing ∧ q.numProcesses ≠ 1 → ¬ q.main = .finished →
      ∃ act next, act ≠ .interrupt ∧ q.step act = some next ∧
        (next.Closing ∧ next.numProcesses ≠ 1) ∧ next.work < q.work := by
    rintro q ⟨closing, peers⟩ unfinished
    obtain ⟨act, next, calm, taken⟩ := closing.exists_step peers unfinished
    exact ⟨act, next, calm, taken, ⟨closing.step taken, (settings_step taken).2 ▸ peers⟩,
      closing.work_step taken⟩
  obtain ⟨later, q, calm, continued, ⟨still, -⟩, finished⟩ :=
    exists_exec_final able ⟨closing, peers⟩
  exact ⟨later, q, calm, continued, still, finished⟩

end Program

/-- **Graceful shutdown.** Whatever the build, the number of processes but one, and the
interleaving: once `main` has cleared the flags, at most `13` steps for each process and `9`
more are taken, a thread can go on until `main` is done, and `main` is then done with every
thread returned. -/
theorem gracefulShutdown {Q : PriorityQueue (Message Ticket) MessageComparator}
    {mode : Mode} {numProcesses : ℕ} (peers : numProcesses ≠ 1) {acts : List ProgramAction}
    {p : Program Q} (run : exec Program.step (.initial mode numProcesses) acts = some p)
    (stopped : p.main.dispatcherStopped) :
    (∀ later q, exec Program.step p later = some q →
      later.length ≤ 13 * numProcesses + 9 ∧
        (q.main ≠ .finished → ∃ act next, act ≠ .interrupt ∧ q.step act = some next)) ∧
      ∃ later q, (∀ act ∈ later, act ≠ .interrupt) ∧ exec Program.step p later = some q ∧
        q.main = .finished ∧ q.dispatcherLoop = .returned ∧
        ∀ id ∈ registeredIDs numProcesses, q.loop id = .returned := by
  have closing := Program.closing_of_run run stopped
  have settings : p.numProcesses = numProcesses := (Program.settings_run run).2
  refine ⟨fun later q continued => ⟨?_, fun unfinished => ?_⟩, ?_⟩
  · have paid := Program.closing_pays.length_le closing continued
    have bounded := closing.work_le
    rw [settings] at bounded
    omega
  · have still := exec_invariant Program.Closing (fun _ _ _ closing taken => closing.step taken)
      closing continued
    exact still.exists_step ((Program.settings_run continued).2.trans settings ▸ peers) unfinished
  · obtain ⟨later, q, calm, continued, still, finished⟩ := closing.exists_finish (settings ▸ peers)
    obtain ⟨dispatcher, processes⟩ := still.all_returned finished
    have same : q.numProcesses = numProcesses :=
      (Program.settings_run continued).2.trans settings
    exact ⟨later, q, calm, continued, finished, dispatcher, same ▸ processes⟩

/-- The user interrupts two processes, one of which is inside its loop. -/
theorem gracefulShutdown_ofTwo :
    let acts := List.replicate 10 .main ++ .checkRunning 1 :: .interrupt :: List.replicate 6 .main
    ∃ p : Program (PriorityQueue.scanned MessageComparator),
      exec Program.step (.initial .noGUI 2) acts = some p ∧ p.loop 1 = .inside ∧
        ∃ later q, exec Program.step p later = some q ∧ q.main = .finished := by
  intro acts
  have reached : (exec (Program.step (Q := PriorityQueue.scanned MessageComparator))
      (.initial .noGUI 2) acts).any (fun p => decide (p.main = .joinDispatcher ∧
        p.loop 1 = .inside)) = true := by
    decide +kernel
  obtain ⟨p, run, holds⟩ := (Option.any_eq_true _ _).mp reached
  obtain ⟨joining, inside⟩ := of_decide_eq_true holds
  obtain ⟨-, later, q, -, continued, finished, -⟩ :=
    gracefulShutdown (by decide) run (by rw [joining]; trivial)
  exact ⟨p, run, inside, later, q, continued, finished⟩

end MessagePassing
