import MessagePassing.System.Shutdown

/-! # When the program can end

Before the shutdown `main` waits for nobody but the stress tests, the user at the window and
the timer behind it, and all of these can go on (`Program.Running.exists_step`). So from every
state the program can reach its end, unless a process is alone: that one looks for a receiver
for ever once it is in its loop (`Program.Alone.step`), and `main` waits for it in vain
(`program_can_end_iff`).
-/

namespace MessagePassing

open Transition

variable {Q : PriorityQueue (Message Ticket) MessageComparator}

/-- The steps the timer has left. -/
def TimerPoint.rest : TimerPoint → ℕ
  | .counting turns => Config.simulationSeconds * 10 - turns + 1
  | _ => 0

/-- The steps of the timer `main` has yet to create. -/
def MainPoint.ahead : MainPoint → ℕ
  | .setup | .register _ | .startDispatcher | .logDispatcher | .start _ | .logStarted =>
      Config.simulationSeconds * 10 + 1
  | _ => 0

theorem MainPoint.Passes.ahead_le {numProcesses : ℕ} {now next : MainPoint}
    (passes : Passes numProcesses now next) : next.ahead ≤ now.ahead := by
  cases passes <;> first | exact le_rfl | exact Nat.zero_le _

namespace Program

variable {p next : Program Q} {act : ProgramAction}

/-- The steps of `main`, of the timer and of the calls until the flags are cleared. -/
def launchRest (p : Program Q) : ℕ :=
  p.main.remaining p.numProcesses + p.main.ahead + p.timer.rest + p.system.callsRest

/-- A step of `main` brings the shutdown nearer. -/
theorem launchRest_main (taken : p.step act = some next)
    (user : act = .main ∨ act = .closeWindow) : next.launchRest < p.launchRest := by
  have nearer {q : Program Q} (numProcesses : q.numProcesses = p.numProcesses)
      (calls : q.system.callsRest = p.system.callsRest)
      (timer : q.main.ahead + q.timer.rest ≤ p.main.ahead + p.timer.rest)
      (less : q.main.remaining p.numProcesses < p.main.remaining p.numProcesses) :
      q.launchRest < p.launchRest := by
    unfold launchRest
    rw [numProcesses, calls]
    omega
  cases step_move taken with
  | register i point more =>
      refine nearer rfl rfl (by rw [point]; exact le_rfl) ?_
      rw [point]
      simp only [MainPoint.remaining]
      omega
  | startDispatcher point =>
      refine nearer rfl rfl (by rw [point]; exact le_rfl) ?_
      rw [point]
      simp only [MainPoint.remaining]
      omega
  | start i point more =>
      refine nearer rfl rfl (by rw [point]; exact le_rfl) ?_
      rw [point]
      simp only [MainPoint.remaining]
      omega
  | stop i point more =>
      refine nearer rfl rfl (by rw [point]; exact le_rfl) ?_
      rw [point]
      simp only [MainPoint.remaining]
      omega
  | stopDispatcher point =>
      refine nearer rfl rfl (by rw [point]; exact le_rfl) ?_
      rw [point]
      simp only [MainPoint.remaining]
      omega
  | joinDispatcher point =>
      refine nearer rfl rfl (by rw [point]; exact le_rfl) ?_
      rw [point]
      simp only [MainPoint.remaining]
      omega
  | join i point more =>
      refine nearer rfl rfl (by rw [point]; exact le_rfl) ?_
      rw [point]
      simp only [MainPoint.remaining]
      omega
  | pass _ messages globalStop timer main _ _ passes _ times =>
      refine nearer rfl rfl ?_ passes.remaining_lt
      have created := times.created
      by_cases started : p.main = .logStarted ∧ p.mode = .gui
      · rw [if_pos started] at created
        rw [started.1] at passes ⊢
        rw [created]
        cases passes
        exact Nat.le_add_right _ _
      · rw [if_neg started] at created
        rw [created]
        exact Nat.add_le_add_right passes.ahead_le _
  | interrupt => rcases user with user | user <;> cases user
  | tick => rcases user with user | user <;> cases user
  | enter => rcases user with user | user <;> cases user
  | leave => rcases user with user | user <;> cases user
  | checkDispatcher => rcases user with user | user <;> cases user
  | thread => rcases user with user | user <;> cases user

/-- The timer counts down. -/
theorem launchRest_timer (taken : p.step .timer = some next) : next.launchRest < p.launchRest := by
  have nearer (globalStop : Bool) {timer : TimerPoint} (less : timer.rest < p.timer.rest) :
      ({ p with globalStop := globalStop, timer := timer } : Program Q).launchRest <
        p.launchRest := by
    simp only [launchRest]
    omega
  rw [step, timerStep] at taken
  split at taken
  · rename_i turns counting
    split at taken
    · rename_i more
      obtain rfl := Option.some.inj taken
      refine nearer p.globalStop ?_
      rw [counting]
      simp only [TimerPoint.rest]
      omega
    · obtain rfl := Option.some.inj taken
      refine nearer true ?_
      rw [counting]
      exact Nat.succ_pos _
  · cases taken

/-- A call that goes on returns sooner. -/
theorem launchRest_proceed {index : ℕ} {drop : Bool}
    (taken : p.step (.thread (.proceed index drop)) = some next) :
    next.launchRest < p.launchRest := by
  obtain ⟨system, stepped, rfl⟩ := Option.map_eq_some_iff.mp taken
  have calls := System.callsRest_proceed stepped
  unfold launchRest
  rw [afterStep_main, afterStep_numProcesses, afterStep_timer, afterStep_system]
  omega

/-- What holds of every reachable program. -/
structure Reached (p : Program Q) : Prop where
  tracked : p.Tracked
  placed : p.Placed
  timed : p.Timed

theorem Reached.step (reached : p.Reached) (taken : p.step act = some next) : next.Reached where
  tracked := reached.tracked.step taken
  placed := reached.placed.step reached.tracked taken
  timed := reached.timed.step taken

theorem reached_run {mode : Mode} {numProcesses : ℕ} {acts : List ProgramAction}
    (run : exec Program.step (.initial mode numProcesses) acts = some p) : p.Reached := by
  obtain ⟨tracked, placed⟩ := placed_run run
  exact ⟨tracked, placed, exec_invariant Timed (fun _ _ _ timed taken => timed.step taken)
    (.initial mode numProcesses) run⟩

/-- Somebody other than a process can go on, nearer to the shutdown. -/
def Advances (p : Program Q) : Prop :=
  ∃ act next, p.step act = some next ∧ next.launchRest < p.launchRest

theorem advances_main (able : ∃ next, p.mainStep = some next) : p.Advances := by
  obtain ⟨next, taken⟩ := able
  have stepped : p.step .main = some next := taken
  exact ⟨.main, next, stepped, launchRest_main stepped (Or.inl rfl)⟩

/-- While the simulation runs, it can go on or end. -/
theorem advances_simulate {turns : ℕ} (point : p.main = .simulate turns) : p.Advances := by
  cases mode : p.mode with
  | noGUI =>
      apply advances_main
      by_cases more : turns < Config.simulationSeconds ∧ p.globalStop = false
      · refine ⟨{ p with main := .simulate (turns + 1) }, ?_⟩
        rw [mainStep, point, mode]
        exact if_pos more
      · refine ⟨{ p with main := .logEnding }, ?_⟩
        rw [mainStep, point, mode]
        exact if_neg more
  | gui =>
      have taken : p.step .closeWindow =
          some { p with globalStop := true, main := .joinTimer } := by
        rw [Program.step, mode, point]
      exact ⟨.closeWindow, _, taken, launchRest_main taken (Or.inr rfl)⟩
  | stressTest =>
      by_cases returned : ∀ call ∈ p.system.calls, call.owner ≠ none
      · apply advances_main
        refine ⟨{ p with globalStop := true, main := .logEnding }, ?_⟩
        rw [mainStep, point, mode]
        exact if_pos returned
      · push Not at returned
        obtain ⟨call, inside, -⟩ := returned
        obtain ⟨index, system, stepped⟩ := System.exists_proceed inside false
        have taken : p.step (.thread (.proceed index false)) =
            some (p.afterStep system (.proceed index false)) := by
          rw [Program.step, if_pos (show p.Enabled (.proceed index false) from trivial), stepped,
            Option.map_some]
        exact ⟨_, _, taken, launchRest_proceed taken⟩

/-- Behind the window `main` waits for a timer that runs out. -/
theorem Reached.advances_joinTimer (reached : p.Reached) (point : p.main = .joinTimer) :
    p.Advances := by
  have window := reached.timed.joined point
  cases timer : p.timer with
  | absent =>
      refine absurd timer (reached.timed.awaited window ?_)
      rw [point]
      trivial
  | counting turns =>
      have able : ∃ next, p.step .timer = some next := by
        rw [Program.step, timerStep, timer]
        by_cases more : turns < Config.simulationSeconds * 10 ∧ p.globalStop = false
        · exact ⟨_, if_pos more⟩
        · exact ⟨_, if_neg more⟩
      obtain ⟨next, taken⟩ := able
      exact ⟨.timer, next, taken, launchRest_timer taken⟩
  | returned =>
      apply advances_main
      refine ⟨{ p with main := .logEnding }, ?_⟩
      rw [mainStep, point]
      exact if_pos timer

/-- **Nothing keeps `main` from the shutdown** but what it waits for on purpose, and that
can go on. -/
theorem Reached.advances (reached : p.Reached) (goesOn : ¬ p.main.dispatcherStopped) :
    p.Advances := by
  cases point : p.main with
  | setup =>
      apply advances_main
      rw [mainStep, point]
      exact ⟨_, rfl⟩
  | register i =>
      apply advances_main
      rw [mainStep, point]
      by_cases more : i < p.numProcesses
      · exact ⟨_, if_pos more⟩
      · exact ⟨_, if_neg more⟩
  | startDispatcher =>
      apply advances_main
      rw [mainStep, point]
      exact ⟨_, rfl⟩
  | logDispatcher =>
      apply advances_main
      rw [mainStep, point]
      exact ⟨_, rfl⟩
  | start i =>
      apply advances_main
      rw [mainStep, point]
      by_cases more : i < p.numProcesses
      · exact ⟨_, if_pos more⟩
      · exact ⟨_, if_neg more⟩
  | logStarted =>
      apply advances_main
      rw [mainStep, point]
      exact ⟨_, rfl⟩
  | simulate turns => exact advances_simulate point
  | joinTimer => exact reached.advances_joinTimer point
  | logEnding =>
      apply advances_main
      rw [mainStep, point]
      exact ⟨_, rfl⟩
  | stop i =>
      apply advances_main
      rw [mainStep, point]
      by_cases more : i < p.numProcesses
      · exact ⟨_, if_pos more⟩
      · exact ⟨_, if_neg more⟩
  | stopDispatcher =>
      apply advances_main
      rw [mainStep, point]
      exact ⟨_, rfl⟩
  | joinDispatcher => exact absurd (point ▸ trivial) goesOn
  | join i => exact absurd (point ▸ trivial) goesOn
  | finished => exact absurd (point ▸ trivial) goesOn

/-- The program can be brought to the shutdown. -/
theorem Reached.exists_stop (reached : p.Reached) : ∃ later q,
    exec Program.step p later = some q ∧ q.Reached ∧ q.main.dispatcherStopped := by
  have able : ∀ q : Program Q, q.Reached → ¬ q.main.dispatcherStopped →
      ∃ act next, True ∧ q.step act = some next ∧ next.Reached ∧
        next.launchRest < q.launchRest := by
    intro q reached goesOn
    obtain ⟨act, next, taken, less⟩ := reached.advances goesOn
    exact ⟨act, next, trivial, taken, reached.step taken, less⟩
  obtain ⟨later, q, -, continued, still, stopped⟩ := exists_exec_final able reached
  exact ⟨later, q, continued, still, stopped⟩

/-- With no process alone the program can be brought to its end. -/
theorem Reached.exists_finish (reached : p.Reached) (peers : p.numProcesses ≠ 1) :
    ∃ later q, exec Program.step p later = some q ∧ q.main = .finished := by
  obtain ⟨early, middle, first, still, stopped⟩ := reached.exists_stop
  have closing : middle.Closing := ⟨still.tracked, still.placed, still.timed, stopped⟩
  obtain ⟨late, q, -, second, -, finished⟩ :=
    closing.exists_finish ((settings_run first).2 ▸ peers)
  exact ⟨early ++ late, q, exec_append_eq_some.mpr ⟨middle, first, second⟩, finished⟩

/-! ## A process alone -/

/-- The only process is in its loop, about to send. -/
structure Alone (p : Program Q) : Prop where
  reached : p.Reached
  one : p.numProcesses = 1
  inside : p.loop 1 = .inside
  sends : (p.system.processes 1).point = .send

/-- A process that finds no receiver is not moved by anything that happens. -/
theorem Alone.thread (alone : p.Alone) {act : Action} {system : System Q}
    (enabled : p.Enabled act) (stepped : p.system.step act = some system) :
    (system.processes 1).point = .send ∧ act ≠ .run 1 := by
  have sends := alone.sends
  have moved := System.processStep stepped 1
  generalize system.processes 1 = process at moved
  cases moved with
  | keep _ other => exact ⟨sends, other⟩
  | deliver queue same => exact ⟨sends, same ▸ Action.noConfusion⟩
  | start same => exact (same ▸ enabled : p.Enabled (.start 1)).elim
  | stop same => exact (same ▸ enabled : p.Enabled (.stop 1)).elim
  | send targetID msgPrio timestamp same =>
      subst same
      obtain ⟨-, atLeast, atMost, other⟩ := System.exists_send_iff.mp ⟨system, stepped⟩
      have supervised := alone.reached.tracked.supervised
      have begun := supervised.begun (by rw [alone.inside]; exact LoopPoint.noConfusion)
      rw [supervised.registry, card_registeredIDs, MainPoint.registered_of_begun begun,
        alone.one] at atMost
      omega
  | finish index drop call same member owner =>
      have sending := (alone.reached.tracked.sending_iff 1).mpr
        (List.mem_filterMap.mpr ⟨call, member, owner⟩)
      cases sends.symm.trans sending
  | run process records same turn => exact absurd sends turn.point_ne.2

theorem Alone.step (alone : p.Alone) (taken : p.step act = some next) : next.Alone := by
  have reached := alone.reached.step taken
  have one := (settings_step taken).2.trans alone.one
  have supervised := alone.reached.tracked.supervised
  obtain ⟨i, below, same, started⟩ := supervised.created 1
    (by rw [alone.inside]; exact LoopPoint.noConfusion)
  have first : i = 0 := by
    unfold processID at same
    omega
  cases step_move taken with
  | register j point more =>
      rw [point] at started
      exact started.elim
  | startDispatcher point =>
      rw [point] at started
      exact started.elim
  | start j point more =>
      rw [point] at started
      have another : i < j := started
      have few := alone.one
      omega
  | enter id checks running =>
      have elsewhere : (1 : ℤ) ≠ id := by
        rintro rfl
        cases checks.symm.trans alone.inside
      refine ⟨reached, one, ?_, ?_⟩
      · exact (Function.update_of_ne elsewhere ..).trans alone.inside
      · have known := supervised.known (by rw [checks]; exact LoopPoint.noConfusion)
        rw [System.attempt_start known, System.setProcess_other _ _ elsewhere]
        exact alone.sends
  | leave id checks =>
      have elsewhere : (1 : ℤ) ≠ id := by
        rintro rfl
        cases checks.symm.trans alone.inside
      refine ⟨reached, one, ?_, ?_⟩
      · exact (Function.update_of_ne elsewhere ..).trans alone.inside
      · rw [System.attempt_stop, System.setProcess_other _ _ elsewhere]
        exact alone.sends
  | thread act system enabled stepped =>
      obtain ⟨sends, other⟩ := alone.thread enabled stepped
      refine ⟨reached, one, ?_, ?_⟩
      · rw [afterStep_loop, if_neg fun back => other back.1]
        exact alone.inside
      · rw [afterStep_system]
        exact sends
  | _ => exact ⟨reached, one, alone.inside, alone.sends⟩

/-- `main` waits for a process alone in vain. -/
theorem Alone.unfinished (alone : p.Alone) : p.main ≠ .finished := by
  intro finished
  have returned := alone.reached.tracked.supervised.joined 0
    (by rw [alone.one]; exact Nat.one_pos) (by rw [finished]; trivial)
  cases alone.inside.symm.trans returned

/-- A process alone enters its loop as soon as it is started. -/
theorem exists_alone (mode : Mode) : ∃ acts, ∃ p : Program Q,
    exec Program.step (.initial mode 1) acts = some p ∧ p.Alone := by
  let launch : List ProgramAction := List.replicate 6 .main ++ [.checkRunning 1]
  obtain ⟨p, run, one, inside, sends⟩ : ∃ p : Program Q,
      exec Program.step (.initial mode 1) launch = some p ∧ p.numProcesses = 1 ∧
        p.loop 1 = .inside ∧ (p.system.processes 1).point = .send :=
    ⟨_, rfl, rfl, rfl, rfl⟩
  exact ⟨launch, p, run, reached_run run, one, inside, sends⟩

end Program

/-- **When the program can end.** In each build and with each number of processes: from every
state the program reaches some run leads to its end, unless there is one process only. Then a
state is reached from which no run does. -/
theorem program_can_end_iff {Q : PriorityQueue (Message Ticket) MessageComparator} (mode : Mode)
    (numProcesses : ℕ) :
    (∀ acts, ∀ p : Program Q, exec Program.step (.initial mode numProcesses) acts = some p →
      ∃ later q, exec Program.step p later = some q ∧ q.main = .finished) ↔
      numProcesses ≠ 1 := by
  constructor
  · rintro able rfl
    obtain ⟨acts, p, run, alone⟩ := Program.exists_alone (Q := Q) mode
    obtain ⟨later, q, continued, finished⟩ := able acts p run
    exact (exec_invariant Program.Alone (fun _ _ _ alone taken => alone.step taken) alone
      continued).unfinished finished
  · intro peers acts p run
    exact (Program.reached_run run).exists_finish ((Program.settings_run run).2 ▸ peers)

end MessagePassing
