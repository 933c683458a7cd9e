import MessagePassing.Dispatcher.Demotion

/-! # When the scheduler's order is not the inbox's

The scheduler picks by a sum, ten points for each level and one for each skip; the inbox
ranks by the level first and by the skips within a level. The two agree on a pick as long as
no message below the highest pending level has been skipped ten times more, for each level
it is below, than the most-skipped message of that level
(`Scheduler.picksMostUrgent_iff`).
-/

namespace MessagePassing

open Transition

variable {ι : Type}

/-- What does not rank below a message has its level and at least its counter, or a higher
level. -/
theorem not_messageComparator_iff {a b : Message ι} :
    ¬ MessageComparator a b = true ↔ b.priority.toInt < a.priority.toInt ∨
      b.priority.toInt = a.priority.toInt ∧ b.agingCounter ≤ a.agingCounter := by
  rw [messageComparator_iff, not_lt, Message.rank, Message.rank, Prod.Lex.toLex_le_toLex]

namespace Scheduler

variable {scheduler next : Scheduler ι} {msg out : Message ι}

/-- The message is pending, and none ranks above it. -/
def Top (scheduler : Scheduler ι) (msg : Message ι) : Prop :=
  msg ∈ scheduler.pendingMessages ∧
    ∀ other ∈ scheduler.pendingMessages, ¬ MessageComparator msg other = true

/-- The message picked has the highest level pending, and the highest counter of those of
its level. -/
theorem top_iff : scheduler.Top msg ↔ msg ∈ scheduler.pendingMessages ∧
    ∀ other ∈ scheduler.pendingMessages, other.priority.toInt < msg.priority.toInt ∨
      other.priority.toInt = msg.priority.toInt ∧ other.agingCounter ≤ msg.agingCounter := by
  simp only [Top, not_messageComparator_iff]

/-- The scheduler picks a message that none ranks above. -/
def PicksMostUrgent (scheduler : Scheduler ι) : Prop :=
  ∀ out next, scheduler.getNextMessage = some (out, next) → scheduler.Top out

/-- Every message below the highest pending level is behind one that ranks highest: it was
skipped less than ten times more for each level between them, or just as often and stands
later. -/
def NoneCaughtUp (scheduler : Scheduler ι) : Prop :=
  ∀ (i : ℕ) (low : Message ι), scheduler.pendingMessages[i]? = some low →
    (∃ high ∈ scheduler.pendingMessages, low.priority.toInt < high.priority.toInt) →
      ∃ (j : ℕ) (top : Message ι), scheduler.pendingMessages[j]? = some top ∧ scheduler.Top top ∧
        (low.agingCounter < top.agingCounter + 10 * (top.priority.toInt - low.priority.toInt) ∨
          low.agingCounter = top.agingCounter + 10 * (top.priority.toInt - low.priority.toInt) ∧
            j < i)

theorem PicksMostUrgent.noneCaughtUp (urgent : scheduler.PicksMostUrgent) :
    scheduler.NoneCaughtUp := by
  rintro i low atI ⟨high, pending, higher⟩
  obtain ⟨out, next, picked⟩ := exists_getNextMessage pending
  obtain ⟨k, atK, first⟩ := getNextMessage_pickedBefore picked
  have top := urgent out next picked
  refine ⟨k, out, atK, top, ?_⟩
  have other : i ≠ k := by
    rintro rfl
    obtain rfl := Option.some.inj (atI.symm.trans atK)
    have highest := (top_iff.mp top).2 high pending
    omega
  obtain ⟨inside, -⟩ := List.getElem?_eq_some_iff.mp atI
  obtain ⟨a, b, atA, atB, ahead⟩ := first i other inside
  obtain rfl := Option.some.inj (atA.symm.trans atK)
  obtain rfl := Option.some.inj (atB.symm.trans atI)
  unfold Message.score at ahead
  omega

theorem NoneCaughtUp.picksMostUrgent (behind : scheduler.NoneCaughtUp) :
    scheduler.PicksMostUrgent := by
  intro out next picked
  obtain ⟨k, atK, first⟩ := getNextMessage_pickedBefore picked
  refine top_iff.mpr ⟨out_mem picked, fun msg pending => ?_⟩
  rcases lt_trichotomy msg.priority.toInt out.priority.toInt with lower | same | higher
  · exact Or.inl lower
  · obtain ⟨i, inside, rfl⟩ := List.getElem_of_mem pending
    refine Or.inr ⟨same, ?_⟩
    by_cases here : i = k
    · subst here
      rw [List.getElem?_eq_getElem inside, Option.some.injEq] at atK
      rw [atK]
    · obtain ⟨a, b, atA, atB, ahead⟩ := first i here inside
      obtain rfl := Option.some.inj (atA.symm.trans atK)
      rw [List.getElem?_eq_getElem inside, Option.some.injEq] at atB
      subst atB
      unfold Message.score at ahead
      omega
  · -- the message picked would have caught up with one that ranks highest
    obtain ⟨j, top, atJ, isTop, close⟩ := behind k out atK ⟨msg, pending, higher⟩
    have highest := (top_iff.mp isTop).2 msg pending
    have other : j ≠ k := by
      rintro rfl
      obtain rfl := Option.some.inj (atJ.symm.trans atK)
      omega
    obtain ⟨inside, -⟩ := List.getElem?_eq_some_iff.mp atJ
    obtain ⟨a, b, atA, atB, ahead⟩ := first j other inside
    obtain rfl := Option.some.inj (atA.symm.trans atK)
    obtain rfl := Option.some.inj (atB.symm.trans atJ)
    unfold Message.score at ahead
    omega

/-- The pick is the most urgent message exactly if none has caught up. -/
theorem picksMostUrgent_iff (scheduler : Scheduler ι) :
    scheduler.PicksMostUrgent ↔ scheduler.NoneCaughtUp :=
  ⟨PicksMostUrgent.noneCaughtUp, NoneCaughtUp.picksMostUrgent⟩

end Scheduler

namespace Dispatch

/-- The next step is a pick. -/
def PickDue (dispatch : Dispatch) (act : DispatchAct) : Prop :=
  act = .dispatch ∧ dispatch.point = .pick

variable {schedule : List DispatchAct} {dispatch : Dispatch} {out msg : Message Ticket}
  {next : Scheduler Ticket}

/-- A message picked over one of a higher level was skipped ten to 24 times since it was
added or last boosted. -/
theorem agingCounter_of_not_urgent (fresh : ∀ act ∈ schedule, act.Fresh)
    (run : exec step initial schedule = some dispatch)
    (picked : dispatch.history.scheduler.getNextMessage = some (out, next))
    (pending : msg ∈ dispatch.history.pending)
    (higher : out.priority.toInt < msg.priority.toInt) :
    10 ≤ out.agingCounter ∧ out.agingCounter ≤ 24 := by
  have nonneg := (started fresh run).2 msg pending
  have score := Scheduler.score_le_of_mem picked pending
  refine ⟨?_, ?_⟩
  · unfold Message.score at score
    omega
  · apply agingCounter_le fresh run (Scheduler.out_mem picked)
    intro top
    have bound := msg.priority.toInt_bounds.2
    rw [Priority.eq_high_iff] at top
    omega

end Dispatch

/-- **When scheduler and inbox agree on urgency.** A scheduler picks a message of the highest
level pending with the highest counter of that level, which none ranks above, if and only if no
message below that level has caught up. In any run of the dispatcher's loop with additions
anywhere, the picks the loop makes are all of this kind if and only if this is so whenever one
is due; and where messages are added unskipped, in every state passed through a message that
would be picked over one of a higher level was skipped ten to 24 times. -/
theorem urgencyAgrees_iff (schedule : List DispatchAct) :
    (∀ scheduler : Scheduler Ticket, scheduler.PicksMostUrgent ↔ scheduler.NoneCaughtUp) ∧
      (Along (fun dispatch act => dispatch.PickDue act →
          dispatch.history.scheduler.PicksMostUrgent) Dispatch.step .initial schedule ↔
        Along (fun dispatch act => dispatch.PickDue act →
          dispatch.history.scheduler.NoneCaughtUp) Dispatch.step .initial schedule) ∧
      ((∀ act ∈ schedule, act.Fresh) →
        ∀ dispatch, Visited Dispatch.step .initial schedule dispatch →
          ∀ out next, dispatch.history.scheduler.getNextMessage = some (out, next) →
            ∀ msg ∈ dispatch.history.pending, out.priority.toInt < msg.priority.toInt →
              10 ≤ out.agingCounter ∧ out.agingCounter ≤ 24) := by
  refine ⟨Scheduler.picksMostUrgent_iff, ⟨?_, ?_⟩, ?_⟩
  · exact Along.mono fun dispatch _ urgent due => (urgent due).noneCaughtUp
  · exact Along.mono fun dispatch _ behind due => (behind due).picksMostUrgent
  · rintro fresh dispatch ⟨earlier, later, rfl, run⟩ out next picked msg pending higher
    have unskipped : ∀ act ∈ earlier, act.Fresh := fun act member =>
      fresh act (List.mem_append_left later member)
    exact Dispatch.agingCounter_of_not_urgent unskipped run picked pending higher

/-- A low message skipped ten times is picked before a medium one that was just added. -/
theorem low_picked_over_medium :
    let low := Message.create 1 2 "" .low 1 ""
    let high := Message.create 1 2 "" .high 2 ""
    let medium := Message.create 1 2 "" .medium 3 ""
    let schedule := DispatchAct.addMessage low :: (List.replicate 10 (.addMessage high) ++
      List.replicate 20 .dispatch ++ [.addMessage medium, .dispatch])
    (∀ act ∈ schedule, act.Fresh) ∧
      ∃ dispatch, exec Dispatch.step .initial schedule = some dispatch ∧
        dispatch.PickDue .dispatch ∧ ¬ dispatch.history.scheduler.PicksMostUrgent ∧
        ∃ out next, dispatch.history.scheduler.getNextMessage = some (out, next) ∧
          out.priority = .low ∧ ∃ msg ∈ dispatch.history.pending, msg.priority = .medium ∧
            MessageComparator out msg = true := by
  intro low high medium schedule
  have reached : (exec Dispatch.step .initial schedule).any (fun dispatch =>
      decide (dispatch.point = .pick) && dispatch.history.scheduler.getNextMessage.any
        fun pick => decide (pick.1.priority = .low ∧ ∃ msg ∈ dispatch.history.pending,
          msg.priority = .medium ∧ MessageComparator pick.1 msg = true)) = true := by
    decide +kernel
  obtain ⟨dispatch, run, facts⟩ := (Option.any_eq_true _ _).mp reached
  obtain ⟨point, pick⟩ := Bool.and_eq_true_iff.mp facts
  obtain ⟨⟨out, next⟩, picked, overtakes⟩ := (Option.any_eq_true _ _).mp pick
  obtain ⟨level, msg, pending, medium, above⟩ := of_decide_eq_true overtakes
  refine ⟨by decide, dispatch, run, ⟨rfl, of_decide_eq_true point⟩, fun urgent => ?_,
    out, next, picked, level, msg, pending, medium, above⟩
  exact (urgent out next picked).2 msg pending above

end MessagePassing
