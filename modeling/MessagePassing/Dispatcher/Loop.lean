import MessagePassing.Scheduler.NonOvertaking

/-! # The dispatcher's loop over the scheduler

What `dispatchLoop` does to the scheduler, interleaved with additions by any number
of senders. Each iteration advances the aging timer, ages the pending messages
every `Dispatch.agingPeriod` iterations, and then picks one message. Additions may
fall anywhere, also between the two steps of an iteration. Every run of the loop is
a run of the scheduler (`Dispatch.exists_history_run`).
-/

namespace MessagePassing

open Transition

/-- Where the dispatcher stands in an iteration. -/
inductive DispatchPoint
  | iteration
  | pick
  deriving DecidableEq

structure Dispatch where
  history : History
  agingTimer : ℕ
  point : DispatchPoint
  deriving DecidableEq

/-- A sender adds a message, or the dispatcher takes its next step. -/
inductive DispatchAct
  | addMessage (msg : Message Unit)
  | dispatch

def DispatchAct.Fresh : DispatchAct → Prop
  | .addMessage msg => msg.agingCounter = 0
  | .dispatch => True

instance (act : DispatchAct) : Decidable act.Fresh :=
  match act with
  | .addMessage msg => inferInstanceAs (Decidable (msg.agingCounter = 0))
  | .dispatch => isTrue trivial

namespace Dispatch

/-- Iterations between two aging rounds. -/
def agingPeriod : ℕ := 20

def initial : Dispatch where
  history := .initial
  agingTimer := 0
  point := .iteration

def step (dispatch : Dispatch) : DispatchAct → Option Dispatch
  | .addMessage msg => (dispatch.history.step (.addMessage msg)).map fun history =>
      { dispatch with history := history }
  | .dispatch =>
      match dispatch.point with
      | .iteration =>
          if dispatch.agingTimer + 1 ≥ agingPeriod then
            (dispatch.history.step .applyAging).map fun history =>
              { history := history, agingTimer := 0, point := .pick }
          else some { dispatch with agingTimer := dispatch.agingTimer + 1, point := .pick }
      | .pick =>
          match dispatch.history.step .getNextMessage with
          | some history => some { dispatch with history := history, point := .iteration }
          | none => some { dispatch with point := .iteration }

/-- Everything one step can do. -/
inductive StepKind (dispatch next : Dispatch) : DispatchAct → Prop
  | add (msg : Message Unit) :
      dispatch.history.step (.addMessage msg) = some next.history →
      next.agingTimer = dispatch.agingTimer → next.point = dispatch.point →
      StepKind dispatch next (.addMessage msg)
  | advance : dispatch.point = .iteration → next.history = dispatch.history →
      dispatch.agingTimer + 1 < agingPeriod → next.agingTimer = dispatch.agingTimer + 1 →
      next.point = .pick → StepKind dispatch next .dispatch
  | age : dispatch.point = .iteration →
      dispatch.history.step .applyAging = some next.history →
      agingPeriod ≤ dispatch.agingTimer + 1 → next.agingTimer = 0 → next.point = .pick →
      StepKind dispatch next .dispatch
  | pick : dispatch.point = .pick →
      dispatch.history.step .getNextMessage = some next.history →
      next.agingTimer = dispatch.agingTimer → next.point = .iteration →
      StepKind dispatch next .dispatch
  | idle : dispatch.point = .pick → dispatch.history.pending = [] →
      next.history = dispatch.history → next.agingTimer = dispatch.agingTimer →
      next.point = .iteration → StepKind dispatch next .dispatch

theorem step_kind {dispatch next : Dispatch} {act : DispatchAct}
    (taken : dispatch.step act = some next) : StepKind dispatch next act := by
  unfold step at taken
  cases act with
  | addMessage msg =>
      obtain ⟨history, added, rfl⟩ := Option.map_eq_some_iff.mp taken
      exact .add msg added rfl rfl
  | dispatch =>
      cases point : dispatch.point with
      | iteration =>
          simp only [point] at taken
          split at taken
          · rename_i due
            obtain ⟨history, aged, rfl⟩ := Option.map_eq_some_iff.mp taken
            exact .age point aged due rfl rfl
          · rename_i early
            obtain rfl := Option.some.inj taken
            exact .advance point rfl (not_le.mp early) rfl rfl
      | pick =>
          simp only [point] at taken
          split at taken
          · rename_i history picked
            obtain rfl := Option.some.inj taken
            exact .pick point picked rfl rfl
          · rename_i nothing
            obtain rfl := Option.some.inj taken
            refine .idle point ?_ rfl rfl rfl
            exact Scheduler.getNextMessage_eq_none.mp (Option.map_eq_none_iff.mp nothing)

/-- The scheduler calls of one step. -/
theorem exists_history_step {dispatch next : Dispatch} {act : DispatchAct} (fresh : act.Fresh)
    (taken : dispatch.step act = some next) :
    ∃ calls : List Call, (∀ call ∈ calls, call.Fresh) ∧
      exec History.step dispatch.history calls = some next.history := by
  have one {call : Call} (callFresh : call.Fresh)
      (stepped : dispatch.history.step call = some next.history) :
      ∃ calls : List Call, (∀ call ∈ calls, call.Fresh) ∧
        exec History.step dispatch.history calls = some next.history := by
    refine ⟨[call], fun other member => ?_, exec_cons_eq_some.mpr ⟨_, stepped, rfl⟩⟩
    exact List.mem_singleton.mp member ▸ callFresh
  have none (same : next.history = dispatch.history) :
      ∃ calls : List Call, (∀ call ∈ calls, call.Fresh) ∧
        exec History.step dispatch.history calls = some next.history :=
    ⟨[], fun _ absent => (List.not_mem_nil absent).elim, congrArg some same.symm⟩
  cases step_kind taken with
  | add msg added => exact one (show (Call.addMessage msg).Fresh from fresh) added
  | advance _ same => exact none same
  | age _ aged => exact one (show Call.applyAging.Fresh from trivial) aged
  | pick _ picked => exact one (show Call.getNextMessage.Fresh from trivial) picked
  | idle _ _ same => exact none same

/-- Every run of the loop is a run of the scheduler. -/
theorem exists_history_run {dispatch last : Dispatch} {schedule : List DispatchAct}
    (fresh : ∀ act ∈ schedule, act.Fresh) (run : exec step dispatch schedule = some last) :
    ∃ calls : List Call, (∀ call ∈ calls, call.Fresh) ∧
      exec History.step dispatch.history calls = some last.history := by
  obtain ⟨calls, reached, freshCalls, moved, rfl⟩ := exec_simulation
    (fun (dispatch : Dispatch) history => dispatch.history = history)
    (fun dispatch act next history same actFresh taken => by
      obtain ⟨calls, freshCalls, moved⟩ := exists_history_step actFresh taken
      exact ⟨calls, next.history, freshCalls, same ▸ moved, rfl⟩)
    rfl (along_of_forall_mem fresh dispatch) run
  exact ⟨calls, freshCalls, moved⟩

/-- What every run from the empty scheduler keeps. -/
theorem started {last : Dispatch} {schedule : List DispatchAct}
    (fresh : ∀ act ∈ schedule, act.Fresh) (run : exec step initial schedule = some last) :
    last.history.Consistent ∧ ∀ msg ∈ last.history.pending, 0 ≤ msg.agingCounter := by
  obtain ⟨calls, freshCalls, reached⟩ := exists_history_run fresh run
  exact History.started freshCalls reached

/-- The timer never reaches the period between two steps. -/
theorem agingTimer_lt {last : Dispatch} {schedule : List DispatchAct}
    (run : exec step initial schedule = some last) : last.agingTimer < agingPeriod := by
  refine exec_invariant (fun dispatch => dispatch.agingTimer < agingPeriod)
    (fun dispatch act next bounded taken => ?_) (by decide : (0 : ℕ) < agingPeriod) run
  cases step_kind taken with
  | add _ _ timer => exact timer ▸ bounded
  | advance _ _ early timer => exact timer ▸ early
  | age _ _ _ timer => exact timer ▸ (by decide : (0 : ℕ) < agingPeriod)
  | pick _ _ timer => exact timer ▸ bounded
  | idle _ _ _ timer => exact timer ▸ bounded

/-- A bound on the picks since the last aging round, exact after the first round. -/
def picksSinceAging (dispatch : Dispatch) : ℕ :=
  match dispatch.point with
  | .iteration => dispatch.agingTimer + 1
  | .pick => dispatch.agingTimer

theorem picksSinceAging_le {dispatch : Dispatch} (timer : dispatch.agingTimer < agingPeriod) :
    dispatch.picksSinceAging ≤ agingPeriod := by
  unfold picksSinceAging
  split <;> omega

end Dispatch

end MessagePassing
