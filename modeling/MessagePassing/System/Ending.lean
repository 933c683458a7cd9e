import MessagePassing.System.Exit

/-! # What ends the simulation

Without a window the simulation runs until an interrupt or until its seconds are over. Behind
the window neither the timer nor an interrupt ends it: both only set a flag the window does not
test, so `main` goes on after the user has closed the window and the timer has returned. The
stress tests end it once all their calls have returned (`simulationEnds`).
-/

namespace MessagePassing

open Transition

variable {Q : PriorityQueue (Message Ticket) MessageComparator}

/-- The simulation is over. -/
def MainPoint.ended : MainPoint → Prop
  | .logEnding | .stop _ | .stopDispatcher | .joinDispatcher | .join _ | .finished => True
  | _ => False

theorem MainPoint.Passes.ended_iff {numProcesses : ℕ} {now next : MainPoint}
    (passes : Passes numProcesses now next) (apart : next ≠ .logEnding) :
    next.ended ↔ now.ended := by
  cases passes with
  | timeUp => exact absurd rfl apart
  | joinTimer => exact absurd rfl apart
  | _ => exact Iff.rfl

namespace Program

variable {p next : Program Q} {act : ProgramAction}

/-- The simulation is over from the moment it ends. -/
theorem ended_step (taken : p.step act = some next) (ended : next.main.ended) :
    p.main.ended ∨ next.main = .logEnding := by
  by_cases ending : next.main = .logEnding
  · exact Or.inr ending
  left
  cases step_move taken with
  | register => exact ended.elim
  | startDispatcher => exact ended.elim
  | start => exact ended.elim
  | stop i point => exact point ▸ trivial
  | stopDispatcher point => exact point ▸ trivial
  | joinDispatcher point => exact point ▸ trivial
  | join i point => exact point ▸ trivial
  | pass act messages globalStop timer main kind kept passes =>
      exact (passes.ended_iff ending).mp ended
  | thread act system => exact afterStep_main p system act ▸ ended
  | _ => exact ended

/-- The seconds `main` has counted are no more than it counts. -/
def Bounded (p : Program Q) : Prop :=
  ∀ turns, p.main = .simulate turns → turns ≤ Config.simulationSeconds

theorem Bounded.step (bounded : p.Bounded) (taken : p.step act = some next) : next.Bounded := by
  intro turns simulates
  cases step_move taken with
  | pass act messages globalStop timer main kind kept passes =>
      obtain rfl : main = .simulate turns := simulates
      generalize p.main = now at passes
      cases passes with
      | logStarted => exact Nat.zero_le _
      | simulate i below => exact below
  | interrupt => exact bounded turns simulates
  | tick => exact bounded turns simulates
  | enter => exact bounded turns simulates
  | leave => exact bounded turns simulates
  | checkDispatcher => exact bounded turns simulates
  | thread act system => exact bounded turns ((afterStep_main p system act).symm.trans simulates)
  | _ => cases simulates

/-- What got the simulation to its end, by the actions taken so far. -/
structure Ended (start : Program Q) (past : List ProgramAction) (p : Program Q) : Prop where
  run : exec Program.step start past = some p
  reached : p.Reached
  bounded : p.Bounded
  interrupted : p.mode = .noGUI → p.globalStop = true → .interrupt ∈ past
  seconds : p.mode = .noGUI → p.main.ended → .interrupt ∈ past ∨
    ∃ earlier q, earlier <+: past ∧ exec Program.step start earlier = some q ∧
      q.main = .simulate Config.simulationSeconds
  closed : p.main = .joinTimer → .closeWindow ∈ past
  window : p.mode = .gui → p.main.ended → .closeWindow ∈ past ∧ p.timer = .returned

theorem Ended.initial (mode : Mode) (numProcesses : ℕ) :
    Ended (initial mode numProcesses : Program Q) [] (initial mode numProcesses) where
  run := rfl
  reached := reached_run (exec_nil _)
  bounded _ simulates := MainPoint.noConfusion simulates
  interrupted _ stops := absurd stops Bool.false_ne_true
  seconds _ := False.elim
  closed waits := MainPoint.noConfusion waits
  window _ := False.elim

variable {start : Program Q} {past : List ProgramAction}

/-- The timer that returned stays so. -/
theorem timer_returned_step (taken : p.step act = some next) (returned : p.timer = .returned)
    (begun : p.main ≠ .logStarted) : next.timer = .returned := by
  cases step_move taken with
  | pass act messages globalStop timer main kind kept passes calm times =>
      rw [← returned]
      exact times.created.trans (if_neg fun started => begun started.1)
  | tick turns globalStop timer counting => cases returned.symm.trans counting
  | thread act system => exact (afterStep_timer p system act).trans returned
  | _ => exact returned

theorem Ended.step (ended : Ended start past p) (taken : p.step act = some next) :
    Ended start (past ++ [act]) next := by
  have mode : next.mode = p.mode := (settings_step taken).1
  have more {other : ProgramAction} (member : other ∈ past) : other ∈ past ++ [act] :=
    List.mem_append_left [act] member
  have last : act ∈ past ++ [act] := List.mem_append_right past List.mem_cons_self
  constructor
  · exact exec_append_eq_some.mpr ⟨p, ended.run, exec_cons_eq_some.mpr ⟨next, taken, rfl⟩⟩
  · exact ended.reached.step taken
  · exact ended.bounded.step taken
  · intro noGUI stops
    rw [mode] at noGUI
    cases before : p.globalStop with
    | true => exact more (ended.interrupted noGUI before)
    | false =>
        have untimed (turns : ℕ) : p.timer ≠ .counting turns := fun counting =>
          Mode.noConfusion (noGUI.symm.trans (ended.reached.timed.counting turns counting).1)
        obtain rfl := interrupt_of_step noGUI untimed taken stops before
        exact last
  · intro noGUI later
    rw [mode] at noGUI
    have kept (before : p.main.ended) : .interrupt ∈ past ++ [act] ∨ ∃ earlier q,
        earlier <+: past ++ [act] ∧ exec Program.step start earlier = some q ∧
          q.main = .simulate Config.simulationSeconds := by
      refine (ended.seconds noGUI before).imp more ?_
      rintro ⟨earlier, q, early, run, simulates⟩
      exact ⟨earlier, q, early.trans (List.prefix_append past [act]), run, simulates⟩
    rcases ended_step taken later with before | ending
    · exact kept before
    · by_cases before : p.main = .logEnding
      · exact kept (before ▸ trivial)
      · cases ends_of_step taken ending before with
        | time turns _ simulates stops =>
            rcases stops with all | stops
            · refine Or.inr ⟨past, p, List.prefix_append past [act], ended.run, ?_⟩
              rw [simulates, le_antisymm (ended.bounded turns simulates) all]
            · exact Or.inl (more (ended.interrupted noGUI stops))
        | window waits =>
            cases noGUI.symm.trans (ended.reached.timed.joined waits)
        | tests turns tests => cases noGUI.symm.trans tests
  · intro waits
    by_cases before : p.main = .joinTimer
    · exact more (ended.closed before)
    · exact closeWindow_of_step taken waits before ▸ last
  · intro gui later
    rw [mode] at gui
    have kept (before : p.main.ended) : .closeWindow ∈ past ++ [act] ∧ next.timer = .returned := by
      obtain ⟨closes, returned⟩ := ended.window gui before
      refine ⟨more closes, timer_returned_step taken returned fun begun => ?_⟩
      rw [begun] at before
      exact before
    rcases ended_step taken later with before | ending
    · exact kept before
    · by_cases before : p.main = .logEnding
      · exact kept (before ▸ trivial)
      · cases ends_of_step taken ending before with
        | time turns noGUI => cases gui.symm.trans noGUI
        | window waits returned =>
            refine ⟨more (ended.closed waits), timer_returned_step taken returned fun begun => ?_⟩
            cases waits.symm.trans begun
        | tests turns tests => cases gui.symm.trans tests

theorem ended_run {mode : Mode} {numProcesses : ℕ} {acts : List ProgramAction}
    (run : exec Program.step (.initial mode numProcesses) acts = some p) :
    Ended (.initial mode numProcesses) acts p :=
  exec_invariant_past (Ended (.initial mode numProcesses)) (fun _ _ _ _ ended => ended.step)
    (.initial mode numProcesses) run

end Program

/-- **What ends the simulation.** In every run that got past the simulation: without a window
it was interrupted or all its seconds were counted; behind a window the user closed it, whatever
the timer and interrupts did before, and the timer has returned; and no call of the stress tests
is left inside `sendMessage`. -/
theorem simulationEnds {mode : Mode} {numProcesses : ℕ} {acts : List ProgramAction}
    {p : Program Q} (run : exec Program.step (.initial mode numProcesses) acts = some p)
    (ended : p.main.ended) :
    (mode = .noGUI → .interrupt ∈ acts ∨ ∃ earlier, ∃ q : Program Q, earlier <+: acts ∧
        exec Program.step (.initial mode numProcesses) earlier = some q ∧
        q.main = .simulate Config.simulationSeconds) ∧
      (mode = .gui → .closeWindow ∈ acts ∧ p.timer = .returned) ∧
      ∀ call ∈ p.system.calls, call.owner ≠ none := by
  have past := Program.ended_run run
  have same : p.mode = mode := (Program.settings_run run).1
  refine ⟨fun noGUI => past.seconds (same.trans noGUI) ended,
    fun gui => past.window (same.trans gui) ended, fun call inside => ?_⟩
  refine past.reached.placed.owned (fun simulates => ?_) inside
  rw [simulates] at ended
  exact ended

/-- The user waits for the timer behind the window, and closes it after that. -/
theorem simulationEnds_behindWindow :
    let acts := List.replicate 6 .main ++ List.replicate 151 .timer ++ [.closeWindow, .main]
    ∃ p : Program (PriorityQueue.scanned MessageComparator),
      exec Program.step (.initial .gui 0) acts = some p ∧ p.main = .logEnding ∧
      .closeWindow ∈ acts ∧ p.timer = .returned := by
  intro acts
  have reached : (exec (Program.step (Q := PriorityQueue.scanned MessageComparator))
      (.initial .gui 0) acts).any (fun p => decide (p.main = .logEnding)) = true := by
    decide +kernel
  obtain ⟨p, run, ending⟩ := (Option.any_eq_true _ _).mp reached
  have ended : p.main.ended := (of_decide_eq_true ending : p.main = .logEnding) ▸ trivial
  exact ⟨p, run, of_decide_eq_true ending, (simulationEnds run ended).2.1 rfl⟩

end MessagePassing
