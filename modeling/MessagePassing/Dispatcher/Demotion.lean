import MessagePassing.Dispatcher.Loop
import Mathlib.Data.List.Forall2

/-! # When a boost is a demotion

A boost adds one level, ten points of score, and throws away the whole counter. So
an aging round lowers the score of exactly the messages below the highest priority
skipped more than ten times since they were added or last boosted
(`Scheduler.neverDemotes_iff`). Between two rounds of the dispatcher a message can
be skipped twenty times: the counters below the highest priority reach at most 24
(`Dispatch.agingCounter_le`), and a demotion costs at most 14 points
(`Dispatch.score_le_age`).
-/

namespace MessagePassing

open Transition

variable {ι : Type}

namespace Scheduler

variable {scheduler next : Scheduler ι} {out : Message ι}

/-- An aging round lowers no score. -/
def KeepsScores (scheduler : Scheduler ι) : Prop :=
  List.Forall₂ (fun old new => old.score ≤ new.score) scheduler.pendingMessages
    scheduler.applyAging.pendingMessages

/-- An aging round moves no boosted message behind an unboosted one that it would
have been picked before. -/
def KeepsAhead (scheduler : Scheduler ι) : Prop :=
  ∀ i j a b, scheduler.pendingMessages[i]? = some a → scheduler.pendingMessages[j]? = some b →
    a.Boosted → ¬ b.Boosted → PickedBefore scheduler.pendingMessages i j →
      PickedBefore scheduler.applyAging.pendingMessages i j

/-- A boost is never a demotion. -/
def NeverDemotes (scheduler : Scheduler ι) : Prop :=
  scheduler.KeepsScores ∧ scheduler.KeepsAhead

/-- No message that aging can still boost was skipped more often than a boost is
worth. -/
def Moderate (scheduler : Scheduler ι) : Prop :=
  ∀ msg ∈ scheduler.pendingMessages, msg.priority ≠ .high → msg.agingCounter ≤ 10

theorem keepsScores_iff (scheduler : Scheduler ι) :
    scheduler.KeepsScores ↔ scheduler.Moderate := by
  unfold KeepsScores
  rw [applyAging_pendingMessages, List.forall₂_map_right_iff, List.forall₂_same]
  refine forall₂_congr fun msg _ => ?_
  rw [ne_eq, Priority.eq_high_iff]
  unfold Message.score
  rcases msg.age_cases with ⟨raised, reset, reached, below⟩ | ⟨same, kept⟩
  · rw [raised, reset]
    omega
  · rw [same]
    omega

/-- A message whose score does not fall stays ahead of an unboosted one. -/
theorem KeepsScores.keepsAhead (keeps : scheduler.KeepsScores) : scheduler.KeepsAhead := by
  rintro i j a b atI atJ - unboosted ⟨a', b', atI', atJ', ahead⟩
  obtain rfl := Option.some.inj (atI.symm.trans atI')
  obtain rfl := Option.some.inj (atJ.symm.trans atJ')
  have raised : a.score ≤ a.age.score := by
    unfold KeepsScores at keeps
    rw [applyAging_pendingMessages, List.forall₂_map_right_iff, List.forall₂_same] at keeps
    exact keeps a (List.mem_of_getElem? atI)
  refine ⟨a.age, b, ?_, ?_, by omega⟩
  · rw [applyAging_pendingMessages, List.getElem?_map, atI]
    rfl
  · rw [applyAging_pendingMessages, List.getElem?_map, atJ, Option.map_some,
      Message.age_of_not_boosted unboosted]

/-- A boost is never a demotion exactly in the moderate states. -/
theorem neverDemotes_iff (scheduler : Scheduler ι) :
    scheduler.NeverDemotes ↔ scheduler.Moderate := by
  rw [NeverDemotes, ← keepsScores_iff]
  exact and_iff_left_of_imp KeepsScores.keepsAhead

end Scheduler

namespace Dispatch

/-- The next step is an aging round. -/
def AgingDue (dispatch : Dispatch) (act : DispatchAct) : Prop :=
  act = .dispatch ∧ dispatch.point = .iteration ∧ agingPeriod ≤ dispatch.agingTimer + 1

/-- How far the counters below the highest priority have grown. -/
structure Counted (dispatch : Dispatch) : Prop where
  counter : ∀ msg ∈ dispatch.history.pending, msg.priority ≠ .high →
    msg.agingCounter ≤ dispatch.picksSinceAging + 4
  timer : dispatch.agingTimer < agingPeriod

theorem Counted.initial : Counted initial where
  counter _ member := by cases member
  timer := by decide

theorem Counted.step {dispatch next : Dispatch} {act : DispatchAct} (counted : Counted dispatch)
    (fresh : act.Fresh) (taken : dispatch.step act = some next) : Counted next := by
  obtain ⟨counter, timer⟩ := counted
  cases step_kind taken with
  | add msg added nextTimer nextPoint =>
      refine ⟨fun other member below => ?_, nextTimer ▸ timer⟩
      have samePicks : next.picksSinceAging = dispatch.picksSinceAging := by
        simp only [picksSinceAging, nextTimer, nextPoint]
      rw [History.pending, (History.step_addMessage added).1] at member
      rw [samePicks]
      rcases List.mem_append.mp member with earlier | last
      · exact counter other earlier below
      · have unskipped : msg.agingCounter = 0 := fresh
        rw [List.mem_singleton.mp last, Message.stamp_agingCounter]
        omega
  | advance point same early nextTimer nextPoint =>
      refine ⟨fun msg member below => ?_, nextTimer ▸ early⟩
      have samePicks : next.picksSinceAging = dispatch.picksSinceAging := by
        simp only [picksSinceAging, nextTimer, point, nextPoint]
      rw [same] at member
      rw [samePicks]
      exact counter msg member below
  | age point aged due nextTimer nextPoint =>
      refine ⟨fun msg member below => ?_, nextTimer ▸ (by decide : (0 : ℕ) < agingPeriod)⟩
      rw [History.pending, (History.step_applyAging aged).1] at member
      obtain ⟨earlier, -, rfl⟩ := List.mem_map.mp member
      have threshold := Message.age_agingCounter_lt below
      unfold Config.agingThreshold at threshold
      omega
  | pick point picked nextTimer nextPoint =>
      refine ⟨fun msg member below => ?_, nextTimer ▸ timer⟩
      obtain ⟨out, pick, -⟩ := History.step_getNextMessage picked
      have more : next.picksSinceAging = dispatch.picksSinceAging + 1 := by
        simp only [picksSinceAging, nextTimer, point, nextPoint]
      obtain ⟨earlier, waited, rfl⟩ := Scheduler.mem_of_mem_next pick member
      have := counter earlier waited below
      rw [Message.skip_agingCounter, more]
      omega
  | idle point empty same nextTimer nextPoint =>
      refine ⟨fun msg member => ?_, nextTimer ▸ timer⟩
      rw [same, empty] at member
      cases member

variable {schedule : List DispatchAct} {dispatch : Dispatch}

/-- Below the highest priority no counter passes 24 in a run of the loop. -/
theorem agingCounter_le (fresh : ∀ act ∈ schedule, act.Fresh)
    (run : exec step initial schedule = some dispatch) {msg : Message Ticket}
    (pending : msg ∈ dispatch.history.pending) (below : msg.priority ≠ .high) :
    msg.agingCounter ≤ 24 := by
  have counted : Counted dispatch :=
    exec_invariant_along Counted (fun _ _ _ holds fresh => holds.step fresh) .initial
      (along_of_forall_mem fresh _) run
  have counter := counted.counter msg pending below
  have since := picksSinceAging_le counted.timer
  unfold agingPeriod at since
  omega

/-- A demotion in a run of the loop costs at most 14 points. -/
theorem score_le_age (fresh : ∀ act ∈ schedule, act.Fresh)
    (run : exec step initial schedule = some dispatch) {msg : Message Ticket}
    (pending : msg ∈ dispatch.history.pending) : msg.score ≤ msg.age.score + 14 := by
  unfold Message.score
  rcases msg.age_cases with ⟨raised, reset, -, belowTop⟩ | ⟨same, -⟩
  · have bounded := agingCounter_le fresh run pending fun top => by
      rw [Priority.eq_high_iff] at top
      omega
    omega
  · rw [same]
    omega

end Dispatch

/-- **When a boost is a demotion.** An aging round demotes no message if and only if no pending
message below the highest priority was skipped more than ten times. In any run of the
dispatcher's loop with additions anywhere, the rounds the loop applies never demote if and only
if this is so whenever one is due; and where messages are added unskipped, in no state passed
through has one below the highest priority been skipped more than 24 times or would a round
cost one more than 14 points. -/
theorem boostNeverDemotes_iff (schedule : List DispatchAct) :
    (∀ scheduler : Scheduler Ticket, scheduler.NeverDemotes ↔ scheduler.Moderate) ∧
      (Along (fun dispatch act => dispatch.AgingDue act →
          dispatch.history.scheduler.NeverDemotes) Dispatch.step .initial schedule ↔
        Along (fun dispatch act => dispatch.AgingDue act →
          dispatch.history.scheduler.Moderate) Dispatch.step .initial schedule) ∧
      ((∀ act ∈ schedule, act.Fresh) →
        ∀ dispatch, Visited Dispatch.step .initial schedule dispatch →
          ∀ msg ∈ dispatch.history.pending,
            (msg.priority ≠ .high → msg.agingCounter ≤ 24) ∧ msg.score ≤ msg.age.score + 14) := by
  refine ⟨Scheduler.neverDemotes_iff, ⟨?_, ?_⟩, ?_⟩
  · exact Along.mono fun dispatch _ never due =>
      dispatch.history.scheduler.neverDemotes_iff.mp (never due)
  · exact Along.mono fun dispatch _ moderate due =>
      dispatch.history.scheduler.neverDemotes_iff.mpr (moderate due)
  · rintro fresh dispatch ⟨earlier, later, rfl, run⟩ msg pending
    have unskipped : ∀ act ∈ earlier, act.Fresh := fun act member =>
      fresh act (List.mem_append_left later member)
    exact ⟨Dispatch.agingCounter_le unskipped run pending,
      Dispatch.score_le_age unskipped run pending⟩

/-- A low message skipped 19 times would be picked before a medium one skipped four
times; the boost to medium puts it behind. -/
theorem boost_demotes_low :
    let low := Message.create 1 2 "" .low 1 ""
    let high := Message.create 1 2 "" .high 2 ""
    let medium := Message.create 1 2 "" .medium 3 ""
    let schedule := DispatchAct.addMessage low :: (List.replicate 20 (.addMessage high) ++
      List.replicate 30 .dispatch ++ [.addMessage medium] ++ List.replicate 8 .dispatch)
    (∀ act ∈ schedule, act.Fresh) ∧
      ∃ dispatch, exec Dispatch.step .initial schedule = some dispatch ∧
        dispatch.AgingDue .dispatch ∧ ¬ dispatch.history.scheduler.KeepsScores ∧
        ¬ dispatch.history.scheduler.KeepsAhead := by
  intro low high medium schedule
  have reached : (exec Dispatch.step .initial schedule).map (fun dispatch =>
      (dispatch.history.scheduler.pendingMessages, dispatch.agingTimer, dispatch.point)) =
        some ([{ low.stamp 0 with agingCounter := 19 }, { high.stamp 20 with agingCounter := 19 },
          { medium.stamp 21 with agingCounter := 4 }], 19, .iteration) := by
    decide +kernel
  obtain ⟨dispatch, run, facts⟩ := Option.map_eq_some_iff.mp reached
  simp only [Prod.mk.injEq] at facts
  obtain ⟨pending, timer, point⟩ := facts
  refine ⟨by decide, dispatch, run, ⟨rfl, point, by rw [timer]; decide⟩, ?_, ?_⟩
  · rw [Scheduler.keepsScores_iff]
    intro moderate
    have bounded := moderate _ (by rw [pending]; exact List.mem_cons_self) (by decide)
    exact absurd bounded (by decide)
  · intro keeps
    obtain ⟨a, b, atA, atB, ahead⟩ := keeps 0 2 _ _ (by rw [pending]; rfl) (by rw [pending]; rfl)
      (by decide) (by decide)
      ⟨_, _, by rw [pending]; rfl, by rw [pending]; rfl, Or.inl (by decide)⟩
    rw [Scheduler.applyAging_pendingMessages, pending] at atA atB
    obtain rfl := Option.some.inj atA
    obtain rfl := Option.some.inj atB
    exact absurd ahead (by decide)

end MessagePassing
