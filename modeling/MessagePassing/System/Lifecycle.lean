import MessagePassing.System.Output
import MessagePassing.System.Target
import MessagePassing.System.Turns

/-! # The program from start to exit

`main` registers the processes under the IDs from `1`, starts the dispatcher and the
processes, lets the simulation run, clears the flags the loops test and waits for the
threads. Between two tests of its flag a thread takes the steps `System` gives it. Time,
what is printed and what the window shows are left out, and the stress tests are any calls
from outside the processes. Nothing after this file unfolds the step function
(`Program.step_move`).
-/

namespace MessagePassing

/-- How long the simulation runs without a window, in seconds. -/
def Config.simulationSeconds : ℕ := 15

open Transition

/-- What `main` does while the simulation runs, by the build and its arguments. -/
inductive Mode
  | noGUI
  | gui
  | stressTest
  deriving DecidableEq

/-- Where `main` stands; in its loops with the number of turns taken. -/
inductive MainPoint
  | setup
  | register (turns : ℕ)
  | startDispatcher
  | logDispatcher
  | start (turns : ℕ)
  | logStarted
  | simulate (turns : ℕ)
  | joinTimer
  | logEnding
  | stop (turns : ℕ)
  | stopDispatcher
  | joinDispatcher
  | join (turns : ℕ)
  | finished
  deriving DecidableEq

/-- Where a thread stands that takes its turns while a flag is set. -/
inductive LoopPoint
  | absent
  | checking
  | inside
  | returned
  deriving DecidableEq

/-- The thread that ends the simulation behind the window, by tenths of a second. -/
inductive TimerPoint
  | absent
  | counting (turns : ℕ)
  | returned
  deriving DecidableEq

structure Program (Q : PriorityQueue (Message Ticket) MessageComparator) where
  mode : Mode
  numProcesses : ℕ
  system : System Q
  main : MainPoint
  globalStop : Bool
  timer : TimerPoint
  running : ℤ → Bool
  loop : ℤ → LoopPoint
  dispatcherRunning : Bool
  dispatcherLoop : LoopPoint

/-- The steps of the threads: `main` goes on; the user interrupts or closes the window; the
timer counts; a process or the dispatcher tests its flag; a thread takes a step inside
its loop or inside `sendMessage`. -/
inductive ProgramAction
  | main
  | interrupt
  | closeWindow
  | timer
  | checkRunning (id : ℤ)
  | checkDispatcher
  | thread (act : Action)
  deriving DecidableEq

variable {Q : PriorityQueue (Message Ticket) MessageComparator}

/-- A plain message to the log. -/
def LogRecord.info (msg : String) : LogRecord where
  event := .general
  details := msg
  ticket := none

/-- The priority of the process registered after as many others. -/
def priorities (i : ℕ) : Priority :=
  match i % 3 with
  | 0 => .high
  | 1 => .medium
  | _ => .low

namespace System

def info (s : System Q) (messages : List String) : System Q :=
  s.withLogger (s.logger.logAll (messages.map LogRecord.info))

/-- The process is new and found under its ID from now on. -/
def registerProcess (s : System Q) (id : ℤ) (priority : Priority) : System Q :=
  let process := Process.new id
  ({ s.setProcess id process with registry := insert id s.registry } : System Q).info
    ["Registered " ++ process.getName ++ " (priority: " ++ priorityToString priority ++ ")"]

end System

namespace Program

/-- Before `main`. -/
def initial (mode : Mode) (numProcesses : ℕ) : Program Q where
  mode := mode
  numProcesses := numProcesses
  system := .initial ∅
  main := .setup
  globalStop := false
  timer := .absent
  running _ := false
  loop _ := .absent
  dispatcherRunning := false
  dispatcherLoop := .absent

/-- The ID of the process created after as many others. -/
def processID (i : ℕ) : ℤ := i + 1

/-- The next step of `main`, unless it waits. -/
def mainStep (p : Program Q) : Option (Program Q) :=
  match p.main with
  | .setup =>
      some { p with
        system := p.system.info
          ["=== IPC Simulation Starting ===",
            "Processes: " ++ ToString.toString p.numProcesses,
            "Queue size: " ++ ToString.toString Config.maxQueueSize,
            "Msg loss:   5%"]
        main := .register 0 }
  | .register i =>
      if i < p.numProcesses then
        some { p with
          system := p.system.registerProcess (processID i) (priorities i)
          main := .register (i + 1) }
      else some { p with main := .startDispatcher }
  | .startDispatcher =>
      some { p with
        dispatcherRunning := true
        dispatcherLoop := .checking
        main := .logDispatcher }
  | .logDispatcher =>
      some { p with system := p.system.info ["Dispatcher thread started."], main := .start 0 }
  | .start i =>
      if i < p.numProcesses then
        some { p with
          running := Function.update p.running (processID i) true
          loop := Function.update p.loop (processID i) .checking
          main := .start (i + 1) }
      else some { p with main := .logStarted }
  | .logStarted =>
      some { p with
        system := p.system.info ["All processes started. Simulation running..."]
        timer := if p.mode = .gui then .counting 0 else p.timer
        main := .simulate 0 }
  | .simulate i =>
      match p.mode with
      | .noGUI =>
          if i < Config.simulationSeconds ∧ p.globalStop = false then
            some { p with main := .simulate (i + 1) }
          else some { p with main := .logEnding }
      | .gui => none
      | .stressTest => -- the tests return when all their calls have
          if ∀ call ∈ p.system.calls, call.owner ≠ none then
            some { p with globalStop := true, main := .logEnding }
          else none
  | .joinTimer => if p.timer = .returned then some { p with main := .logEnding } else none
  | .logEnding =>
      some { p with system := p.system.info ["=== Simulation Ending ==="], main := .stop 0 }
  | .stop i =>
      if i < p.numProcesses then
        some { p with
          running := Function.update p.running (processID i) false
          main := .stop (i + 1) }
      else some { p with main := .stopDispatcher }
  | .stopDispatcher => some { p with dispatcherRunning := false, main := .joinDispatcher }
  | .joinDispatcher =>
      if p.dispatcherLoop = .returned then some { p with main := .join 0 } else none
  | .join i =>
      if i < p.numProcesses then
        if p.loop (processID i) = .returned then some { p with main := .join (i + 1) } else none
      else some { p with main := .finished }
  | .finished => none

/-- The timer goes on. -/
def timerStep (p : Program Q) : Option (Program Q) :=
  match p.timer with
  | .counting i =>
      if i < Config.simulationSeconds * 10 ∧ p.globalStop = false then
        some { p with timer := .counting (i + 1) }
      else some { p with globalStop := true, timer := .returned }
  | _ => none

/-- A process tests its flag, and sets its state to what it does next. -/
def checkRunning (p : Program Q) (id : ℤ) : Option (Program Q) :=
  if p.loop id = .checking then
    if p.running id then
      some { p with
        system := attempt System.step p.system (.start id)
        loop := Function.update p.loop id .inside }
    else
      some { p with
        system := attempt System.step p.system (.stop id)
        loop := Function.update p.loop id .returned }
  else none

/-- The dispatcher tests its flag. -/
def checkDispatcher (p : Program Q) : Option (Program Q) :=
  if p.dispatcherLoop = .checking then
    some { p with dispatcherLoop := if p.dispatcherRunning then .inside else .returned }
  else none

/-- Whether the thread that would take the step is where it can. -/
def Enabled (p : Program Q) : Action → Prop
  | .generateMessageID | .enter _ => p.mode = .stressTest ∧ p.main = .simulate 0
  | .start _ | .stop _ => False
  | .send id _ _ _ | .run id => p.loop id = .inside
  | .proceed _ _ => True
  | .dispatch => p.dispatcherLoop = .inside

instance (p : Program Q) : (act : Action) → Decidable (p.Enabled act)
  | .generateMessageID | .enter _ => inferInstanceAs (Decidable (_ ∧ _))
  | .start _ | .stop _ => inferInstanceAs (Decidable False)
  | .send _ _ _ _ | .run _ => inferInstanceAs (Decidable (_ = _))
  | .proceed _ _ => inferInstanceAs (Decidable True)
  | .dispatch => inferInstanceAs (Decidable (_ = _))

/-- After its last step of a turn a thread tests its flag again. -/
def afterStep (p : Program Q) (system : System Q) : Action → Program Q
  | .run id =>
      { p with
        system := system
        loop := if (system.processes id).point = .send then
          Function.update p.loop id .checking else p.loop }
  | .dispatch =>
      { p with
        system := system
        dispatcherLoop := if system.dispatcher = .iteration then .checking else p.dispatcherLoop }
  | _ => { p with system := system }

def step (p : Program Q) : ProgramAction → Option (Program Q)
  | .main => p.mainStep
  | .interrupt => if p.globalStop then none else some { p with globalStop := true }
  | .closeWindow =>
      match p.mode, p.main with
      | .gui, .simulate _ => some { p with globalStop := true, main := .joinTimer }
      | _, _ => none
  | .timer => p.timerStep
  | .checkRunning id => p.checkRunning id
  | .checkDispatcher => p.checkDispatcher
  | .thread act =>
      if p.Enabled act then (p.system.step act).map fun system => p.afterStep system act else none

end Program

/-! ## What `main` has done where it stands -/

namespace MainPoint

/-- How many processes are registered. -/
def registered (numProcesses : ℕ) : MainPoint → ℕ
  | .setup => 0
  | .register i => min i numProcesses
  | _ => numProcesses

def dispatcherStarted : MainPoint → Prop
  | .setup | .register _ | .startDispatcher => False
  | _ => True

/-- The process created after as many others is started. -/
def started (i : ℕ) : MainPoint → Prop
  | .setup | .register _ | .startDispatcher | .logDispatcher => False
  | .start turns => i < turns
  | _ => True

/-- The flag of the process created after as many others is cleared. -/
def stopped (i : ℕ) : MainPoint → Prop
  | .stop turns => i < turns
  | .stopDispatcher | .joinDispatcher | .join _ | .finished => True
  | _ => False

def dispatcherStopped : MainPoint → Prop
  | .joinDispatcher | .join _ | .finished => True
  | _ => False

def dispatcherJoined : MainPoint → Prop
  | .join _ | .finished => True
  | _ => False

/-- The process created after as many others has returned. -/
def joined (i : ℕ) : MainPoint → Prop
  | .join turns => i < turns
  | .finished => True
  | _ => False

/-- The simulation runs, or its timer is waited for. -/
def simulating : MainPoint → Prop
  | .simulate _ | .joinTimer => True
  | _ => False

/-- The most steps `main` still takes. -/
def remaining (numProcesses : ℕ) : MainPoint → ℕ
  | .setup => 4 * numProcesses + Config.simulationSeconds + 13
  | .register i => (numProcesses - i) + 3 * numProcesses + Config.simulationSeconds + 12
  | .startDispatcher => 3 * numProcesses + Config.simulationSeconds + 11
  | .logDispatcher => 3 * numProcesses + Config.simulationSeconds + 10
  | .start i => (numProcesses - i) + 2 * numProcesses + Config.simulationSeconds + 9
  | .logStarted => 2 * numProcesses + Config.simulationSeconds + 8
  | .simulate i => (Config.simulationSeconds - i) + 2 * numProcesses + 7
  | .joinTimer => 2 * numProcesses + 6
  | .logEnding => 2 * numProcesses + 5
  | .stop i => (numProcesses - i) + numProcesses + 4
  | .stopDispatcher => numProcesses + 3
  | .joinDispatcher => numProcesses + 2
  | .join i => (numProcesses - i) + 1
  | .finished => 0

/-- The steps of `main` that start, stop and join nobody. -/
inductive Passes (numProcesses : ℕ) : MainPoint → MainPoint → Prop
  | setup : Passes numProcesses .setup (.register 0)
  | registered (i : ℕ) : numProcesses ≤ i → Passes numProcesses (.register i) .startDispatcher
  | logDispatcher : Passes numProcesses .logDispatcher (.start 0)
  | started (i : ℕ) : numProcesses ≤ i → Passes numProcesses (.start i) .logStarted
  | logStarted : Passes numProcesses .logStarted (.simulate 0)
  | simulate (i : ℕ) : i < Config.simulationSeconds →
      Passes numProcesses (.simulate i) (.simulate (i + 1))
  | timeUp (i : ℕ) : Passes numProcesses (.simulate i) .logEnding
  | closed (i : ℕ) : Passes numProcesses (.simulate i) .joinTimer
  | joinTimer : Passes numProcesses .joinTimer .logEnding
  | logEnding : Passes numProcesses .logEnding (.stop 0)
  | stopped (i : ℕ) : numProcesses ≤ i → Passes numProcesses (.stop i) .stopDispatcher
  | joined (i : ℕ) : numProcesses ≤ i → Passes numProcesses (.join i) .finished

variable {numProcesses : ℕ} {now next : MainPoint} {i : ℕ}

theorem Passes.registered_eq (passes : Passes numProcesses now next) :
    next.registered numProcesses = now.registered numProcesses := by
  cases passes <;> simp only [MainPoint.registered] <;> omega

theorem Passes.dispatcherStarted_iff (passes : Passes numProcesses now next) :
    next.dispatcherStarted ↔ now.dispatcherStarted := by
  cases passes <;> simp only [MainPoint.dispatcherStarted]

theorem Passes.started_iff (passes : Passes numProcesses now next) (below : i < numProcesses) :
    next.started i ↔ now.started i := by
  cases passes <;> simp only [MainPoint.started, Nat.not_lt_zero, true_iff]
  omega

theorem Passes.stopped_iff (passes : Passes numProcesses now next) (below : i < numProcesses) :
    next.stopped i ↔ now.stopped i := by
  cases passes <;> simp only [MainPoint.stopped, Nat.not_lt_zero, true_iff]
  omega

theorem Passes.dispatcherStopped_iff (passes : Passes numProcesses now next) :
    next.dispatcherStopped ↔ now.dispatcherStopped := by
  cases passes <;> simp only [MainPoint.dispatcherStopped]

theorem Passes.dispatcherJoined_iff (passes : Passes numProcesses now next) :
    next.dispatcherJoined ↔ now.dispatcherJoined := by
  cases passes <;> simp only [MainPoint.dispatcherJoined]

theorem Passes.joined_iff (passes : Passes numProcesses now next) (below : i < numProcesses) :
    next.joined i ↔ now.joined i := by
  cases passes <;> simp only [MainPoint.joined, true_iff]
  omega

/-- The simulation goes on or ends. -/
theorem Passes.simulating (passes : Passes numProcesses now next) (runs : now.simulating) :
    next.simulating ∨ next = .logEnding := by
  cases passes with
  | simulate => exact Or.inl trivial
  | timeUp => exact Or.inr rfl
  | closed => exact Or.inl trivial
  | joinTimer => exact Or.inr rfl
  | _ => exact runs.elim

/-- The simulation went on or begins. -/
theorem Passes.simulating_before (passes : Passes numProcesses now next)
    (runs : next.simulating) : now.simulating ∨ now = .logStarted := by
  cases passes with
  | logStarted => exact Or.inr rfl
  | simulate => exact Or.inl trivial
  | closed => exact Or.inl trivial
  | _ => exact runs.elim

theorem Passes.remaining_lt (passes : Passes numProcesses now next) :
    next.remaining numProcesses < now.remaining numProcesses := by
  cases passes <;> simp only [MainPoint.remaining] <;> omega

end MainPoint

namespace Program

/-- `main` creates the timer behind the window only, and waits for it there. -/
structure Times (p : Program Q) (main : MainPoint) (timer : TimerPoint) : Prop where
  created : timer = if p.main = .logStarted ∧ p.mode = .gui then .counting 0 else p.timer
  closed : main = .joinTimer → p.mode = .gui
  joined : main = .logEnding → p.mode = .gui → p.timer = .returned

/-- Everything one step can do. -/
inductive Move (p : Program Q) : ProgramAction → Program Q → Prop
  | register (i : ℕ) : p.main = .register i → i < p.numProcesses →
      Move p .main { p with
        system := p.system.registerProcess (processID i) (priorities i)
        main := .register (i + 1) }
  | startDispatcher : p.main = .startDispatcher →
      Move p .main { p with
        dispatcherRunning := true
        dispatcherLoop := .checking
        main := .logDispatcher }
  | start (i : ℕ) : p.main = .start i → i < p.numProcesses →
      Move p .main { p with
        running := Function.update p.running (processID i) true
        loop := Function.update p.loop (processID i) .checking
        main := .start (i + 1) }
  | stop (i : ℕ) : p.main = .stop i → i < p.numProcesses →
      Move p .main { p with
        running := Function.update p.running (processID i) false
        main := .stop (i + 1) }
  | stopDispatcher : p.main = .stopDispatcher →
      Move p .main { p with dispatcherRunning := false, main := .joinDispatcher }
  | joinDispatcher : p.main = .joinDispatcher → p.dispatcherLoop = .returned →
      Move p .main { p with main := .join 0 }
  | join (i : ℕ) : p.main = .join i → i < p.numProcesses → p.loop (processID i) = .returned →
      Move p .main { p with main := .join (i + 1) }
  | pass (act : ProgramAction) (messages : List String) (globalStop : Bool) (timer : TimerPoint)
      (main : MainPoint) : act = .main ∨ act = .closeWindow → (p.globalStop → globalStop) →
      p.main.Passes p.numProcesses main →
      ((∀ call ∈ p.system.calls, call.owner ≠ none) ∨
        ¬ (p.mode = .stressTest ∧ p.main = .simulate 0)) →
      p.Times main timer →
      Move p act { p with
        system := p.system.info messages
        globalStop := globalStop
        timer := timer
        main := main }
  | interrupt : p.globalStop = false → Move p .interrupt { p with globalStop := true }
  | tick (turns : ℕ) (globalStop : Bool) (timer : TimerPoint) : p.timer = .counting turns →
      timer ≠ .absent → (p.globalStop → globalStop) →
      Move p .timer { p with globalStop := globalStop, timer := timer }
  | enter (id : ℤ) : p.loop id = .checking → p.running id = true →
      Move p (.checkRunning id) { p with
        system := attempt System.step p.system (.start id)
        loop := Function.update p.loop id .inside }
  | leave (id : ℤ) : p.loop id = .checking → p.running id = false →
      Move p (.checkRunning id) { p with
        system := attempt System.step p.system (.stop id)
        loop := Function.update p.loop id .returned }
  | checkDispatcher : p.dispatcherLoop = .checking →
      Move p .checkDispatcher { p with
        dispatcherLoop := if p.dispatcherRunning then .inside else .returned }
  | thread (act : Action) (system : System Q) : p.Enabled act → p.system.step act = some system →
      Move p (.thread act) (p.afterStep system act)

variable {p next : Program Q} {act : ProgramAction}

theorem mainStep_move (taken : p.mainStep = some next) : Move p .main next := by
  have passed {now main : MainPoint} (point : p.main = now)
      (passes : now.Passes p.numProcesses main) (calm : now ≠ .simulate 0)
      (before : main ≠ .logEnding ∧ main ≠ .joinTimer) (untimed : now ≠ .logStarted)
      (messages : List String) :
      Move p .main { p with
        system := p.system.info messages
        main := main } := by
    subst point
    exact .pass .main messages p.globalStop p.timer main (Or.inl rfl) id passes
      (Or.inr fun running => calm running.2)
      ⟨(if_neg fun started => untimed started.1).symm, fun closed => absurd closed before.2,
        fun ending => absurd ending before.1⟩
  have ended {turns : ℕ} (point : p.main = .simulate turns)
      (calm : (∀ call ∈ p.system.calls, call.owner ≠ none) ∨ p.mode ≠ .stressTest)
      (bare : p.mode ≠ .gui) (globalStop : Bool) (kept : p.globalStop → globalStop) :
      Move p .main { p with globalStop := globalStop, main := .logEnding } := by
    exact .pass .main [] globalStop p.timer .logEnding (Or.inl rfl) kept
      (point ▸ MainPoint.Passes.timeUp turns) (calm.imp_right fun plain running => plain running.1)
      ⟨(if_neg fun started => bare started.2).symm, MainPoint.noConfusion,
        fun _ window => absurd window bare⟩
  unfold mainStep at taken
  cases point : p.main with
  | setup =>
      rw [point] at taken
      obtain rfl := Option.some.inj taken
      exact passed point .setup MainPoint.noConfusion
        ⟨MainPoint.noConfusion, MainPoint.noConfusion⟩ MainPoint.noConfusion _
  | register i =>
      rw [point] at taken
      dsimp only at taken
      split at taken
      · rename_i more
        obtain rfl := Option.some.inj taken
        exact .register i point more
      · rename_i all
        obtain rfl := Option.some.inj taken
        exact passed point (.registered i (not_lt.mp all)) MainPoint.noConfusion
          ⟨MainPoint.noConfusion, MainPoint.noConfusion⟩ MainPoint.noConfusion []
  | startDispatcher =>
      rw [point] at taken
      obtain rfl := Option.some.inj taken
      exact .startDispatcher point
  | logDispatcher =>
      rw [point] at taken
      obtain rfl := Option.some.inj taken
      exact passed point .logDispatcher MainPoint.noConfusion
        ⟨MainPoint.noConfusion, MainPoint.noConfusion⟩ MainPoint.noConfusion _
  | start i =>
      rw [point] at taken
      dsimp only at taken
      split at taken
      · rename_i more
        obtain rfl := Option.some.inj taken
        exact .start i point more
      · rename_i all
        obtain rfl := Option.some.inj taken
        exact passed point (.started i (not_lt.mp all)) MainPoint.noConfusion
          ⟨MainPoint.noConfusion, MainPoint.noConfusion⟩ MainPoint.noConfusion []
  | logStarted =>
      rw [point] at taken
      obtain rfl := Option.some.inj taken
      refine .pass .main _ p.globalStop _ _ (Or.inl rfl) id (point ▸ MainPoint.Passes.logStarted)
        (Or.inr fun running => ?_) ⟨?_, MainPoint.noConfusion, MainPoint.noConfusion⟩
      · cases point.symm.trans running.2
      · simp only [point, true_and]
  | simulate i =>
      rw [point] at taken
      dsimp only at taken
      split at taken
      · rename_i mode
        have plain : p.mode ≠ .stressTest := mode ▸ Mode.noConfusion
        split at taken
        · rename_i more
          obtain rfl := Option.some.inj taken
          exact .pass .main [] p.globalStop p.timer _ (Or.inl rfl) id
            (point ▸ MainPoint.Passes.simulate i more.1) (Or.inr fun running => plain running.1)
            ⟨(if_neg fun started => MainPoint.noConfusion (point.symm.trans started.1)).symm,
              MainPoint.noConfusion, MainPoint.noConfusion⟩
        · obtain rfl := Option.some.inj taken
          exact ended point (Or.inr plain) (mode ▸ Mode.noConfusion) p.globalStop id
      · cases taken
      · rename_i mode
        split at taken
        · rename_i returned
          obtain rfl := Option.some.inj taken
          exact ended point (Or.inl returned) (mode ▸ Mode.noConfusion) true fun _ => rfl
        · cases taken
  | joinTimer =>
      rw [point] at taken
      dsimp only at taken
      split at taken
      · rename_i returned
        obtain rfl := Option.some.inj taken
        refine .pass .main [] p.globalStop p.timer _ (Or.inl rfl) id
          (point ▸ MainPoint.Passes.joinTimer) (Or.inr fun running => ?_)
          ⟨(if_neg fun started => MainPoint.noConfusion (point.symm.trans started.1)).symm,
            MainPoint.noConfusion, fun _ _ => returned⟩
        cases point.symm.trans running.2
      · cases taken
  | logEnding =>
      rw [point] at taken
      obtain rfl := Option.some.inj taken
      exact passed point .logEnding MainPoint.noConfusion
        ⟨MainPoint.noConfusion, MainPoint.noConfusion⟩ MainPoint.noConfusion _
  | stop i =>
      rw [point] at taken
      dsimp only at taken
      split at taken
      · rename_i more
        obtain rfl := Option.some.inj taken
        exact .stop i point more
      · rename_i all
        obtain rfl := Option.some.inj taken
        exact passed point (.stopped i (not_lt.mp all)) MainPoint.noConfusion
          ⟨MainPoint.noConfusion, MainPoint.noConfusion⟩ MainPoint.noConfusion []
  | stopDispatcher =>
      rw [point] at taken
      obtain rfl := Option.some.inj taken
      exact .stopDispatcher point
  | joinDispatcher =>
      rw [point] at taken
      dsimp only at taken
      split at taken
      · rename_i returned
        obtain rfl := Option.some.inj taken
        exact .joinDispatcher point returned
      · cases taken
  | join i =>
      rw [point] at taken
      dsimp only at taken
      split at taken
      · rename_i more
        split at taken
        · rename_i returned
          obtain rfl := Option.some.inj taken
          exact .join i point more returned
        · cases taken
      · rename_i all
        obtain rfl := Option.some.inj taken
        exact passed point (.joined i (not_lt.mp all)) MainPoint.noConfusion
          ⟨MainPoint.noConfusion, MainPoint.noConfusion⟩ MainPoint.noConfusion []
  | finished =>
      rw [point] at taken
      cases taken

theorem step_move (taken : p.step act = some next) : Move p act next := by
  cases act with
  | main => exact mainStep_move taken
  | interrupt =>
      rw [step, Option.ite_none_left_eq_some, Option.some.injEq, Bool.not_eq_true] at taken
      obtain ⟨running, rfl⟩ := taken
      exact .interrupt running
  | closeWindow =>
      rw [step] at taken
      split at taken
      · rename_i mode point
        obtain rfl := Option.some.inj taken
        refine .pass .closeWindow [] true p.timer _ (Or.inr rfl) (fun _ => rfl)
          (point ▸ MainPoint.Passes.closed _) (Or.inr fun running => ?_)
          ⟨(if_neg fun started => MainPoint.noConfusion (point.symm.trans started.1)).symm,
            fun _ => mode, MainPoint.noConfusion⟩
        cases mode.symm.trans running.1
      · cases taken
  | timer =>
      rw [step, timerStep] at taken
      split at taken
      · rename_i turns counting
        split at taken
        · obtain rfl := Option.some.inj taken
          exact .tick turns p.globalStop _ counting TimerPoint.noConfusion id
        · obtain rfl := Option.some.inj taken
          exact .tick turns true _ counting TimerPoint.noConfusion fun _ => rfl
      · cases taken
  | checkRunning id =>
      rw [step, checkRunning, Option.ite_none_right_eq_some] at taken
      obtain ⟨checks, taken⟩ := taken
      split at taken
      · rename_i running
        obtain rfl := Option.some.inj taken
        exact .enter id checks running
      · rename_i cleared
        obtain rfl := Option.some.inj taken
        exact .leave id checks (Bool.not_eq_true _ ▸ cleared)
  | checkDispatcher =>
      rw [step, checkDispatcher, Option.ite_none_right_eq_some, Option.some.injEq] at taken
      obtain ⟨checks, rfl⟩ := taken
      exact .checkDispatcher checks
  | thread act =>
      rw [step, Option.ite_none_right_eq_some] at taken
      obtain ⟨enabled, taken⟩ := taken
      obtain ⟨system, stepped, rfl⟩ := Option.map_eq_some_iff.mp taken
      exact .thread act system enabled stepped

/-! ## What follows a step inside a loop -/

section AfterStep

variable (p : Program Q) (system : System Q) (act : Action)

@[simp] theorem afterStep_mode : (p.afterStep system act).mode = p.mode := by
  cases act <;> rfl

@[simp] theorem afterStep_numProcesses :
    (p.afterStep system act).numProcesses = p.numProcesses := by
  cases act <;> rfl

@[simp] theorem afterStep_system : (p.afterStep system act).system = system := by
  cases act <;> rfl

@[simp] theorem afterStep_main : (p.afterStep system act).main = p.main := by
  cases act <;> rfl

@[simp] theorem afterStep_globalStop : (p.afterStep system act).globalStop = p.globalStop := by
  cases act <;> rfl

@[simp] theorem afterStep_timer : (p.afterStep system act).timer = p.timer := by
  cases act <;> rfl

@[simp] theorem afterStep_running : (p.afterStep system act).running = p.running := by
  cases act <;> rfl

@[simp] theorem afterStep_dispatcherRunning :
    (p.afterStep system act).dispatcherRunning = p.dispatcherRunning := by
  cases act <;> rfl

/-- A process tests its flag when it is about to send again. -/
theorem afterStep_loop (id : ℤ) : (p.afterStep system act).loop id =
    if act = .run id ∧ (system.processes id).point = .send then .checking else p.loop id := by
  cases act with
  | run other =>
      by_cases here : id = other
      · subst here
        by_cases sends : (system.processes id).point = .send
        · simp only [afterStep, sends, ↓reduceIte, Function.update_self, and_self]
        · simp only [afterStep, sends, and_false, ↓reduceIte]
      · have different : ¬ (Action.run other = .run id ∧ (system.processes id).point = .send) :=
          fun same => here (Action.run.inj same.1).symm
        rw [if_neg different]
        by_cases sends : (system.processes other).point = .send
        · simp only [afterStep, if_pos sends, Function.update_of_ne here]
        · simp only [afterStep, if_neg sends]
  | _ => rfl

/-- The dispatcher tests its flag after each iteration. -/
theorem afterStep_dispatcherLoop : (p.afterStep system act).dispatcherLoop =
    if act = .dispatch ∧ system.dispatcher = .iteration then .checking
    else p.dispatcherLoop := by
  cases act with
  | dispatch => simp only [afterStep, true_and]
  | _ => rfl

end AfterStep

/-! ## How the simulation ends -/

/-- What gets `main` from the simulation to its end. -/
inductive Ends (p : Program Q) : Prop
  | time (turns : ℕ) : p.mode = .noGUI → p.main = .simulate turns →
      Config.simulationSeconds ≤ turns ∨ p.globalStop = true → Ends p
  | window : p.main = .joinTimer → p.timer = .returned → Ends p
  | tests (turns : ℕ) : p.mode = .stressTest → p.main = .simulate turns → Ends p

/-- The simulation ends where the seconds are over, the program is interrupted, the timer
behind a closed window returned or the tests did. -/
theorem ends_of_step (taken : p.step act = some next) (ending : next.main = .logEnding)
    (before : p.main ≠ .logEnding) : p.Ends := by
  cases step_move taken with
  | pass act messages globalStop timer main kind kept passes calm times =>
      obtain rfl : main = .logEnding := ending
      generalize point : p.main = now at passes
      cases passes with
      | timeUp turns =>
          rcases kind with rfl | rfl
          · rw [step, mainStep, point] at taken
            dsimp only at taken
            split at taken
            · rename_i mode
              split at taken
              · cases congrArg Program.main (Option.some.inj taken)
              · rename_i stops
                refine .time turns mode point ?_
                by_contra goesOn
                rw [not_or, not_le, Bool.not_eq_true] at goesOn
                exact stops goesOn
            · cases taken
            · rename_i mode
              exact .tests turns mode point
          · rw [step, point] at taken
            split at taken
            · cases congrArg Program.main (Option.some.inj taken)
            · cases taken
      | joinTimer =>
          rcases kind with rfl | rfl
          · rw [step, mainStep, point] at taken
            dsimp only at taken
            split at taken
            · rename_i returned
              exact .window point returned
            · cases taken
          · rw [step, point] at taken
            split at taken
            · cases congrArg Program.main (Option.some.inj taken)
            · cases taken
  | interrupt => exact absurd ending before
  | tick => exact absurd ending before
  | enter => exact absurd ending before
  | leave => exact absurd ending before
  | checkDispatcher => exact absurd ending before
  | thread act system => exact absurd ((afterStep_main p system act).symm.trans ending) before
  | _ => cases ending

/-- The timer is waited for once the window is closed. -/
theorem closeWindow_of_step (taken : p.step act = some next) (waits : next.main = .joinTimer)
    (before : p.main ≠ .joinTimer) : act = .closeWindow := by
  cases step_move taken with
  | pass act messages globalStop timer main kind kept passes calm times =>
      obtain rfl : main = .joinTimer := waits
      rcases kind with rfl | rfl
      · generalize point : p.main = now at passes
        cases passes with
        | closed turns =>
            rw [step, mainStep, point] at taken
            dsimp only at taken
            split at taken
            · split at taken <;> cases congrArg Program.main (Option.some.inj taken)
            · cases taken
            · split at taken
              · cases congrArg Program.main (Option.some.inj taken)
              · cases taken
      · rfl
  | interrupt => exact absurd waits before
  | tick => exact absurd waits before
  | enter => exact absurd waits before
  | leave => exact absurd waits before
  | checkDispatcher => exact absurd waits before
  | thread act system => exact absurd ((afterStep_main p system act).symm.trans waits) before
  | _ => cases waits

/-- Without a window `main` stops nobody before the simulation is over. -/
theorem globalStop_main (mode : p.mode = .noGUI) (taken : p.mainStep = some next) :
    next.globalStop = p.globalStop := by
  unfold mainStep at taken
  cases point : p.main with
  | simulate i =>
      rw [point, mode] at taken
      dsimp only at taken
      split at taken <;>
      · obtain rfl := Option.some.inj taken
        rfl
  | finished =>
      rw [point] at taken
      cases taken
  | join i =>
      rw [point] at taken
      dsimp only at taken
      split at taken
      · obtain ⟨-, rfl⟩ := Option.ite_none_right_eq_some.mp taken |>.imp_right Option.some.inj
        rfl
      · obtain rfl := Option.some.inj taken
        rfl
  | joinTimer =>
      rw [point] at taken
      obtain ⟨-, taken⟩ := Option.ite_none_right_eq_some.mp taken
      obtain rfl := Option.some.inj taken
      rfl
  | joinDispatcher =>
      rw [point] at taken
      obtain ⟨-, taken⟩ := Option.ite_none_right_eq_some.mp taken
      obtain rfl := Option.some.inj taken
      rfl
  | _ =>
      rw [point] at taken
      dsimp only at taken
      first
      | obtain rfl := Option.some.inj taken
        rfl
      | split at taken <;>
        · obtain rfl := Option.some.inj taken
          rfl

/-- Without a window, an interrupt alone ends the simulation before its time. -/
theorem interrupt_of_step (mode : p.mode = .noGUI) (untimed : ∀ turns, p.timer ≠ .counting turns)
    (taken : p.step act = some next) (stops : next.globalStop = true)
    (before : p.globalStop = false) : act = .interrupt := by
  cases step_move taken with
  | pass act messages globalStop timer main kind kept passes calm times =>
      rcases kind with rfl | rfl
      · exact absurd ((globalStop_main mode taken).symm.trans stops) (before ▸ Bool.false_ne_true)
      · rw [step, mode] at taken
        cases taken
  | interrupt => rfl
  | tick turns globalStop timer counting => exact absurd counting (untimed turns)
  | thread act system =>
      rw [afterStep_globalStop, before] at stops
      cases stops
  | _ => cases before.symm.trans stops

end Program

end MessagePassing
