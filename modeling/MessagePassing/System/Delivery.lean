import MessagePassing.Foundation.Transition
import MessagePassing.Scheduler.Boosts
import MessagePassing.Scheduler.Rivals
import MessagePassing.System.Scheduling
import MessagePassing.System.Whereabouts

/-! # Every message queued arrives

A message in the scheduler waits for aging to raise it to the highest priority and then for
its rivals; each iteration of the dispatcher, of five steps at most, brings it nearer
(`System.Awaits.step`), whatever the other threads add or take in between. So it leaves the
scheduler and is stored, rejected or discarded within a number of the dispatcher's steps that
depends only on how many messages pend at once (`deliveredInTime`).
-/

namespace MessagePassing

open Transition

/-- The steps the dispatcher takes until it has picked again. -/
def DispatcherPoint.toPick : DispatcherPoint → ℕ
  | .pick => 1
  | .iteration => 2
  | .logDelivered _ | .logFull _ | .logUnknown _ => 3
  | .countDelivered _ => 4
  | .deliver _ => 5

namespace Message

variable {ι : Type}

/-- The picks until a boost, with those until the next aging round. -/
def delay (toAging : ℕ) (msg : Message ι) : ℕ :=
  if Config.agingThreshold ≤ msg.agingCounter + toAging then toAging
  else toAging + Dispatch.agingPeriod

/-- The picks that can still return other messages, while at most `most` pend. -/
def picksLeft (most toAging rivals : ℕ) (msg : Message ι) : ℕ :=
  match msg.priority with
  | .low => msg.delay toAging + Dispatch.agingPeriod + (most - 1)
  | .medium => msg.delay toAging + (most - 1)
  | .high => rivals

variable {msg : Message ι} {toAging rivals fewer : ℕ}

/-- A skip brings the next round nearer by as much as it raises the counter. -/
theorem delay_skip (later : 0 < toAging) :
    msg.skip.delay (toAging - 1) + 1 = msg.delay toAging := by
  unfold delay
  rw [skip_agingCounter]
  split <;> split <;> omega

/-- Each pick that returns a rival leaves one pick less. -/
theorem picksLeft_skip (msg : Message ι) (most : ℕ) (later : 0 < toAging)
    (less : fewer + 1 ≤ rivals) :
    msg.skip.picksLeft most (toAging - 1) fewer + 1 ≤ msg.picksLeft most toAging rivals := by
  have delayed := msg.delay_skip later
  unfold picksLeft
  rw [skip_priority]
  cases msg.priority with
  | low => simp only; omega
  | medium => simp only; omega
  | high => exact less

/-- An aging round boosts a message in time, and leaves one with as many picks as before. -/
theorem picksLeft_age {most : ℕ} (nonneg : 0 ≤ msg.agingCounter) (less : fewer ≤ rivals)
    (few : msg.priority = .high ∨ fewer < most) :
    msg.age.picksLeft most Dispatch.agingPeriod fewer ≤ msg.picksLeft most 0 rivals := by
  have period : Dispatch.agingPeriod = 20 := rfl
  have threshold : Config.agingThreshold = 5 := rfl
  rcases msg.age_cases with ⟨raised, reset, reached, -⟩ | ⟨same, short⟩
  · cases level : msg.priority with
    | low =>
        have medium : msg.age.priority = .medium := by
          rw [level] at raised
          cases now : msg.age.priority with
          | low => exact absurd (now ▸ raised) (by decide)
          | medium => rfl
          | high => exact absurd (now ▸ raised) (by decide)
        simp only [picksLeft, delay, level, medium, reset, period, threshold]
        split <;> split <;> omega
    | medium =>
        have high : msg.age.priority = .high := by
          rw [Priority.eq_high_iff, raised, level]
          rfl
        have fewMost := few.resolve_left (by rw [level]; exact Priority.noConfusion)
        simp only [picksLeft, level, high]
        omega
    | high =>
        have bound := msg.age.priority.toInt_bounds.2
        rw [raised, level] at bound
        exact absurd bound (by decide)
  · rw [same]
    cases level : msg.priority with
    | low =>
        rw [level] at short
        have below : msg.agingCounter < 5 := short.resolve_right (by decide)
        simp only [picksLeft, delay, level, period, threshold]
        split <;> split <;> omega
    | medium =>
        rw [level] at short
        have below : msg.agingCounter < 5 := short.resolve_right (by decide)
        simp only [picksLeft, delay, level, period, threshold]
        split <;> split <;> omega
    | high =>
        simp only [picksLeft, level]
        exact less

/-- Below the highest priority the aging rounds alone decide. -/
theorem picksLeft_of_not_high (most toAging : ℕ) (low : msg.priority ≠ .high)
    (first second : ℕ) : msg.picksLeft most toAging first = msg.picksLeft most toAging second := by
  unfold picksLeft
  cases level : msg.priority with
  | low | medium => rfl
  | high => exact absurd level low

/-- An unskipped message added behind a message leaves it as many picks as before. -/
theorem picksLeft_add {front back : List (Message ι)} {added : Message ι} (most : ℕ)
    (nonneg : 0 ≤ msg.agingCounter) (unskipped : added.agingCounter = 0) :
    msg.picksLeft most toAging (Scheduler.rivals front msg (back ++ [added])) =
      msg.picksLeft most toAging (Scheduler.rivals front msg back) := by
  by_cases top : msg.priority = .high
  · have level : added.priority.toInt ≤ msg.priority.toInt := by
      rw [top]
      exact added.priority.toInt_bounds.2
    rw [Scheduler.rivals_add (dominates_of_priority_le level nonneg unskipped)]
  · exact picksLeft_of_not_high most toAging top _ _

/-- No message waits for more picks than these. -/
theorem picksLeft_le {most : ℕ} (nonneg : 0 ≤ msg.agingCounter)
    (soon : toAging ≤ Dispatch.agingPeriod) (few : rivals < most) :
    msg.picksLeft most toAging rivals ≤ most + 43 := by
  have period : Dispatch.agingPeriod = 20 := rfl
  have threshold : Config.agingThreshold = 5 := rfl
  cases level : msg.priority with
  | low =>
      simp only [picksLeft, delay, level, period, threshold]
      split <;> omega
  | medium =>
      simp only [picksLeft, delay, level, period, threshold]
      split <;> omega
  | high =>
      simp only [picksLeft, level]
      omega

end Message

namespace System

variable {Q : PriorityQueue (Message Ticket) MessageComparator}
  {s next : System Q} {act : Action} {ticket : Ticket}

/-- The picks until the next aging round. -/
def toAging (s : System Q) : ℕ :=
  (if s.dispatcher = .pick then Dispatch.agingPeriod else Dispatch.agingPeriod - 1) - s.agingTimer

/-- A message was stored in an inbox, or its delivery failed. -/
def Arrived (s : System Q) (ticket : Ticket) : Prop :=
  s.Reached ticket ∨ ticket ∈ s.rejected.map Message.ticket ∨
    ticket ∈ s.discarded.map Message.ticket

/-- What a step does to the scheduler and to the dispatcher's position. -/
inductive SchedulingStep (s next : System Q) (act : Action) : Prop
  | rest : act ≠ .dispatch → next.dispatcher = s.dispatcher → next.agingTimer = s.agingTimer →
      next.scheduler = s.scheduler → SchedulingStep s next act
  | add (call : SendCall) : act ≠ .dispatch → next.dispatcher = s.dispatcher →
      next.agingTimer = s.agingTimer → call ∈ s.calls →
      next.scheduler = s.scheduler.addMessage call.msg → SchedulingStep s next act
  | advance : act = .dispatch → s.dispatcher = .iteration → next.dispatcher = .pick →
      next.agingTimer = s.agingTimer + 1 → next.agingTimer < Dispatch.agingPeriod →
      next.scheduler = s.scheduler → SchedulingStep s next act
  | age : act = .dispatch → s.dispatcher = .iteration → next.dispatcher = .pick →
      next.agingTimer = 0 → Dispatch.agingPeriod ≤ s.agingTimer + 1 →
      next.scheduler = s.scheduler.applyAging → SchedulingStep s next act
  | pick (msg : Message Ticket) : act = .dispatch → s.dispatcher = .pick →
      next.dispatcher = .deliver msg → next.agingTimer = s.agingTimer →
      s.scheduler.getNextMessage = some (msg, next.scheduler) → SchedulingStep s next act
  | idle : act = .dispatch → s.dispatcher = .pick → next.dispatcher = .iteration →
      next.agingTimer = s.agingTimer → s.scheduler.pendingMessages = [] →
      next.scheduler = s.scheduler → SchedulingStep s next act
  | put : act = .dispatch → s.dispatcher ≠ .pick → next.dispatcher ≠ .pick →
      next.dispatcher.toPick + 1 ≤ s.dispatcher.toPick → next.agingTimer = s.agingTimer →
      next.scheduler = s.scheduler → (∀ ticket, s.InHand ticket → next.Arrived ticket) →
      SchedulingStep s next act

/-- Anywhere else than before a delivery the dispatcher's hand is empty. -/
theorem not_inHand {point : DispatcherPoint} (here : s.dispatcher = point)
    (empty : point.message = none) : ¬ s.InHand ticket := by
  rintro ⟨msg, hand, -⟩
  rw [← here, hand] at empty
  cases empty

theorem schedulingStep (kind : StepKind s act next) : SchedulingStep s next act := by
  cases kind with
  | generate => exact .rest nofun rfl rfl rfl
  | enter msg => exact .rest nofun rfl rfl rfl
  | control _ id process other => exact .rest other rfl rfl rfl
  | send id targetID msgPrio timestamp process => exact .rest nofun rfl rfl rfl
  | count index drop front back call => exact .rest nofun rfl rfl rfl
  | drop index front back call => exact .rest nofun rfl rfl rfl
  | queue index front back call calls =>
      refine .add call nofun rfl rfl ?_ rfl
      rw [calls]
      exact List.mem_append_right front List.mem_cons_self
  | finish index drop front back call record => exact .rest nofun rfl rfl rfl
  | run id process records ran => exact .rest nofun rfl rfl rfl
  | age point due => exact .age rfl point rfl rfl due rfl
  | advance point early => exact .advance rfl point rfl rfl early rfl
  | pick msg rest point picked => exact .pick msg rfl point rfl rfl picked
  | idle point nothing =>
      exact .idle rfl point rfl rfl (Scheduler.getNextMessage_eq_none.mp nothing) rfl
  | accept msg queue point registered room contents ownerID =>
      refine .put rfl (point ▸ nofun) nofun (point ▸ Nat.le_refl 5) rfl rfl ?_
      rintro ticket ⟨other, hand, rfl⟩
      obtain rfl := DispatcherPoint.deliver.inj (point.symm.trans hand)
      refine Or.inl ⟨msg.receiverID, ?_⟩
      refine Process.mem_tickets_of_stored ?_
      change msg ∈ ((s.setProcess msg.receiverID _).processes msg.receiverID).queue.contents
      rw [setProcess_same, contents]
      exact Multiset.mem_cons_self _ _
  | reject msg record point =>
      refine .put rfl (point ▸ nofun) nofun (point ▸ Nat.le_succ 4) rfl rfl ?_
      rintro ticket ⟨other, hand, rfl⟩
      obtain rfl := DispatcherPoint.deliver.inj (point.symm.trans hand)
      exact Or.inr (Or.inl (List.mem_map_of_mem (List.mem_append_right _ List.mem_cons_self)))
  | discard msg point =>
      refine .put rfl (point ▸ nofun) nofun (point ▸ Nat.le_succ 4) rfl rfl ?_
      rintro ticket ⟨other, hand, rfl⟩
      obtain rfl := DispatcherPoint.deliver.inj (point.symm.trans hand)
      exact Or.inr (Or.inr (List.mem_map_of_mem (List.mem_append_right _ List.mem_cons_self)))
  | countDelivered msg point =>
      exact .put rfl (point ▸ nofun) nofun (point ▸ Nat.le_refl 4) rfl rfl
        fun ticket hand => absurd hand (not_inHand point rfl)
  | logDelivered msg record point =>
      exact .put rfl (point ▸ nofun) nofun (point ▸ Nat.le_refl 3) rfl rfl
        fun ticket hand => absurd hand (not_inHand point rfl)
  | note msg record point =>
      rcases point with point | point
      · exact .put rfl (point ▸ nofun) nofun (point ▸ Nat.le_refl 3) rfl rfl
          fun ticket hand => absurd hand (not_inHand point rfl)
      · exact .put rfl (point ▸ nofun) nofun (point ▸ Nat.le_refl 3) rfl rfl
          fun ticket hand => absurd hand (not_inHand point rfl)

/-- What has arrived stays where it is, or is received. -/
theorem Arrived.step (arrived : s.Arrived ticket) (kind : StepKind s act next) :
    next.Arrived ticket := by
  rcases arrived with reached | failed
  · exact Or.inl (reached.step kind)
  · right
    cases kind with
    | reject msg record =>
        refine failed.imp_left fun rejected => ?_
        rw [List.map_append]
        exact List.mem_append_left _ rejected
    | discard msg =>
        refine failed.imp_right fun discarded => ?_
        rw [List.map_append]
        exact List.mem_append_left _ discarded
    | _ => exact failed

/-- What every run keeps of the scheduler: messages are added unskipped, and the timer stays
below the period. -/
structure Scheduled (s : System Q) : Prop where
  fresh : s.FreshCalls
  ordered : s.scheduler.Ordered fun _ _ => False
  timer : s.agingTimer < Dispatch.agingPeriod

theorem Scheduled.initial (registry : Finset ℤ) : (initial registry : System Q).Scheduled where
  fresh := .initial registry
  ordered := .new
  timer := Nat.succ_pos _

theorem Scheduled.step (scheduled : s.Scheduled) (fresh : act.Fresh)
    (kind : StepKind s act next) : next.Scheduled where
  fresh := scheduled.fresh.step fresh kind
  ordered := ordered_step scheduled.ordered scheduled.fresh kind fun _ _ _ _ => ⟨False.elim, id⟩
  timer := by
    have timer := scheduled.timer
    cases schedulingStep kind with
    | advance _ _ _ _ less => exact less
    | age _ _ _ reset => exact reset ▸ Nat.succ_pos _
    | rest _ _ same => exact same ▸ timer
    | add _ _ _ same => exact same ▸ timer
    | pick _ _ _ _ same => exact same ▸ timer
    | idle _ _ _ same => exact same ▸ timer
    | put _ _ _ _ same => exact same ▸ timer

/-- Every state visited from a scheduled one is scheduled. -/
theorem Scheduled.visited {acts : List Action} {middle : System Q} (scheduled : s.Scheduled)
    (fresh : ∀ act ∈ acts, act.Fresh) (visited : Visited System.step s acts middle) :
    middle.Scheduled := by
  obtain ⟨earlier, later, rfl, reached⟩ := visited
  exact exec_invariant_along Scheduled
    (fun _ _ _ scheduled fresh taken => scheduled.step fresh (step_kind taken)) scheduled
    (along_of_forall_mem (fun act member => fresh act (List.mem_append_left later member)) _)
    reached

theorem scheduled_run {registry : Finset ℤ} {acts : List Action}
    (fresh : ∀ act ∈ acts, act.Fresh)
    (run : exec System.step (.initial registry) acts = some s) : s.Scheduled :=
  exec_invariant_along Scheduled (fun _ _ _ scheduled fresh taken =>
    scheduled.step fresh (step_kind taken)) (.initial registry) (along_of_forall_mem fresh _) run

/-- A message pends, or is in the dispatcher's hand, and the dispatcher puts it down within so
many steps; an urgent one is at the highest priority. -/
inductive Awaits (urgent : Prop) (most : ℕ) (ticket : Ticket) (budget : ℕ) (s : System Q) : Prop
  | pending (front back : List (Message Ticket)) (msg : Message Ticket) :
      s.scheduler.pendingMessages = front ++ msg :: back → msg.ticket = ticket →
      (urgent → msg.priority = .high) →
      s.dispatcher.toPick + 5 * msg.picksLeft most s.toAging (Scheduler.rivals front msg back) + 1 ≤
        budget → Awaits urgent most ticket budget s
  | inHand : s.InHand ticket → 1 ≤ budget → Awaits urgent most ticket budget s

variable {urgent : Prop} {most budget : ℕ}

/-- The dispatcher puts down what it has in hand in its next step. -/
theorem InHand.step (hand : s.InHand ticket) (kind : StepKind s act next) :
    next.Arrived ticket ∨ act ≠ .dispatch ∧ next.InHand ticket := by
  cases schedulingStep kind with
  | rest other point =>
      rw [InHand, point]
      exact Or.inr ⟨other, hand⟩
  | add call other point =>
      rw [InHand, point]
      exact Or.inr ⟨other, hand⟩
  | advance _ point => exact absurd hand (not_inHand point rfl)
  | age _ point => exact absurd hand (not_inHand point rfl)
  | pick _ _ point => exact absurd hand (not_inHand point rfl)
  | idle _ point => exact absurd hand (not_inHand point rfl)
  | put _ _ _ _ _ _ put => exact Or.inl (put ticket hand)

theorem age_high {msg : Message Ticket} (high : msg.priority = .high) :
    msg.age.priority = .high := by
  rw [Message.age_of_not_boosted fun boosted => boosted.2 high]
  exact high

/-- **Every step of the dispatcher counts.** A message waiting arrives, or waits on with as
many steps left, or one less if the step is the dispatcher's. -/
theorem Awaits.step (awaits : s.Awaits urgent most ticket budget) (scheduled : s.Scheduled)
    (few : urgent ∨ s.scheduler.pendingCount ≤ most) (kind : StepKind s act next) :
    next.Arrived ticket ∨ ∃ left, next.Awaits urgent most ticket left ∧
      left + (if act = .dispatch then 1 else 0) ≤ budget := by
  have timer := scheduled.timer
  cases awaits with
  | pending front back msg split named high within =>
      have member : msg ∈ s.scheduler.pendingMessages :=
        split ▸ List.mem_append_right front List.mem_cons_self
      have nonneg := scheduled.ordered.nonneg msg member
      right
      cases schedulingStep kind with
      | rest other point same scheduler =>
          refine ⟨budget, .pending front back msg (scheduler ▸ split) named high ?_, ?_⟩
          · rw [toAging, point, same]
            exact within
          · rw [if_neg other]
            omega
      | add call other point same inside scheduler =>
          refine ⟨budget, .pending front (back ++ [call.msg]) msg ?_ named high ?_, ?_⟩
          · rw [scheduler, Scheduler.addMessage_pendingMessages, split, List.append_assoc,
              List.cons_append]
          · obtain ⟨serial, added, stamped, counter⟩ := scheduled.fresh call inside
            have unskipped : call.msg.agingCounter = 0 := by
              rw [stamped, Message.stamp_agingCounter, counter]
            rw [Message.picksLeft_add most nonneg unskipped, toAging, point, same]
            exact within
          · rw [if_neg other]
            omega
      | advance isDispatch point later timerNext soon scheduler =>
          refine ⟨budget - 1, .pending front back msg (scheduler ▸ split) named high ?_, ?_⟩
          · have same : next.toAging = s.toAging := by
              rw [toAging, toAging, point, later, timerNext, if_pos rfl, if_neg nofun]
              omega
            rw [same, later]
            rw [point] at within
            simp only [DispatcherPoint.toPick] at within ⊢
            omega
          · rw [if_pos isDispatch]
            omega
      | age isDispatch point later reset due scheduler =>
          have before : s.toAging = 0 := by
            rw [toAging, point, if_neg nofun]
            omega
          have after : next.toAging = Dispatch.agingPeriod := by
            rw [toAging, later, reset, if_pos rfl, Nat.sub_zero]
          have fewer : Scheduler.rivals (front.map .age) msg.age (back.map .age) ≤
              Scheduler.rivals front msg back := Scheduler.rivals_age_le nonneg
          have below := Scheduler.rivals_lt split
          have inTime : msg.priority = .high ∨
              Scheduler.rivals (front.map .age) msg.age (back.map .age) < most := by
            rcases few with isUrgent | few
            · exact Or.inl (high isUrgent)
            · exact Or.inr (fewer.trans_lt (below.trans_le few))
          have left := Message.picksLeft_age nonneg fewer inTime
          refine ⟨budget - 1, .pending (front.map .age) (back.map .age) msg.age ?_
            (msg.age_ticket.trans named) (fun isUrgent => age_high (high isUrgent)) ?_, ?_⟩
          · rw [scheduler, Scheduler.applyAging_pendingMessages, split, List.map_append,
              List.map_cons]
          · rw [after, later]
            rw [before, point] at within
            simp only [DispatcherPoint.toPick] at within ⊢
            omega
          · rw [if_pos isDispatch]
            omega
      | pick out isDispatch point later same picked =>
          rw [point] at within
          simp only [DispatcherPoint.toPick] at within
          rcases Scheduler.rivals_pick picked split with rfl | ⟨before, behind, rest, less⟩
          · refine ⟨1, .inHand ⟨msg, later, named⟩ le_rfl, ?_⟩
            rw [if_pos isDispatch]
            omega
          · have positive : 0 < s.toAging := by
              rw [toAging, point, if_pos rfl]
              omega
            have aging : next.toAging = s.toAging - 1 := by
              rw [toAging, toAging, point, later, same, if_pos rfl, if_neg nofun]
              omega
            have left := msg.picksLeft_skip most positive less
            refine ⟨budget - 1, .pending before behind msg.skip rest named high ?_, ?_⟩
            · rw [aging, later]
              simp only [DispatcherPoint.toPick]
              omega
            · rw [if_pos isDispatch]
              omega
      | idle isDispatch point later same empty scheduler =>
          rw [empty] at member
          exact absurd member List.not_mem_nil
      | put isDispatch point later nearer same scheduler put =>
          refine ⟨budget - 1, .pending front back msg (scheduler ▸ split) named high ?_, ?_⟩
          · have aging : next.toAging = s.toAging := by
              rw [toAging, toAging, if_neg point, if_neg later, same]
            rw [aging]
            omega
          · rw [if_pos isDispatch]
            omega
  | inHand hand positive =>
      rcases hand.step kind with arrived | ⟨other, still⟩
      · exact Or.inl arrived
      · refine Or.inr ⟨budget, .inHand still positive, ?_⟩
        rw [if_neg other]
        omega

/-- The budget of a message that pends. -/
theorem awaits_of_pending (urgent : Prop) (most : ℕ) (scheduled : s.Scheduled)
    {msg : Message Ticket} (pending : msg ∈ s.scheduler.pendingMessages)
    (high : urgent → msg.priority = .high) :
    (msg.priority = .high → s.Awaits urgent most msg.ticket (5 * s.scheduler.pendingCount + 1)) ∧
      (s.scheduler.pendingCount ≤ most →
        s.Awaits urgent most msg.ticket (5 * (most + 45) - 1)) := by
  obtain ⟨front, back, split⟩ := List.append_of_mem pending
  have below : Scheduler.rivals front msg back < s.scheduler.pendingCount :=
    Scheduler.rivals_lt split
  have near : s.dispatcher.toPick ≤ 5 := by
    cases s.dispatcher <;> simp only [DispatcherPoint.toPick] <;> omega
  have soon : s.toAging ≤ Dispatch.agingPeriod := by
    unfold toAging
    split <;> omega
  refine ⟨fun top => .pending front back msg split rfl high ?_,
    fun few => .pending front back msg split rfl high ?_⟩
  · simp only [Message.picksLeft, top]
    omega
  · have left := Message.picksLeft_le (scheduled.ordered.nonneg msg pending) soon
      (below.trans_le few)
    omega

/-- A message waiting has arrived once the dispatcher took more steps than its budget. -/
theorem Awaits.arrived {last : System Q} {acts : List Action}
    (awaits : s.Awaits urgent most ticket budget) (scheduled : s.Scheduled)
    (fresh : ∀ act ∈ acts, act.Fresh)
    (few : urgent ∨ ∀ middle, Visited System.step s acts middle →
      middle.scheduler.pendingCount ≤ most)
    (run : exec System.step s acts = some last)
    (spent : budget < acts.countP fun act => act = .dispatch) : last.Arrived ticket := by
  refine reached_of_budget
    (fun middle => middle.Scheduled ∧ (urgent ∨ middle.scheduler.pendingCount ≤ most))
    (fun middle => middle.Arrived ticket)
    (fun budget middle => middle.Awaits urgent most ticket budget)
    (fun _ _ _ arrived taken => arrived.step (step_kind taken)) ?_ awaits ?_ run spent
  · intro budget state action next waits meets taken
    have moved := waits.step meets.1 meets.2 (step_kind taken)
    simpa only [decide_eq_true_eq] using moved
  · exact fun middle visited =>
      ⟨scheduled.visited fresh visited, few.imp_right fun few => few middle visited⟩

/-! ## How far the counters grow -/

/-- Messages at the highest priority are skipped less often than messages pend at once. -/
theorem bounded_run {registry : Finset ℤ} {acts : List Action}
    (fresh : ∀ act ∈ acts, act.Fresh)
    (few : ∀ middle, Visited System.step (.initial registry : System Q) acts middle →
      middle.scheduler.pendingCount ≤ most)
    (run : exec System.step (.initial registry) acts = some s) : s.scheduler.Bounded most := by
  refine exec_invariant_visited
    (fun middle => middle.Scheduled ∧ middle.scheduler.pendingCount ≤ most)
    (fun middle => middle.scheduler.Bounded most) ?_ .new
    (fun middle visited =>
      ⟨(Scheduled.initial registry).visited fresh visited, few middle visited⟩) run
  intro state action next bounded before after taken
  have nonneg := before.1.ordered.nonneg
  rcases scheduler_step (step_kind taken) with ⟨scheduler, -⟩ | ⟨call, inside, -, scheduler, -⟩ |
    ⟨scheduler, -⟩ | ⟨msg, -, picked, -⟩
  · exact scheduler ▸ bounded
  · obtain ⟨serial, added, stamped, counter⟩ := before.1.fresh call inside
    have room := after.2
    rw [scheduler] at room ⊢
    exact bounded.addMessage nonneg (by rw [stamped, Message.stamp_agingCounter, counter]) room
  · rw [scheduler]
    exact bounded.applyAging nonneg before.2
  · exact bounded.getNextMessage picked

/-- The calls whose message is not queued or dropped yet. -/
def unqueued (calls : List SendCall) : ℕ :=
  calls.countP fun call => call.stage = .entered ∨ call.stage = .counted

/-- The boosts counted and those still possible are two for each message sent at most. -/
def BoostsSent (s : System Q) : Prop :=
  s.scheduler.boosts + 2 * unqueued s.calls ≤ 2 * s.sent.length

theorem BoostsSent.initial (registry : Finset ℤ) : (initial registry : System Q).BoostsSent :=
  Nat.le_refl 0

theorem BoostsSent.step (boosts : s.BoostsSent) (kind : StepKind s act next) :
    next.BoostsSent := by
  unfold BoostsSent unqueued at boosts ⊢
  cases kind with
  | enter | send =>
      simp only [enterSend, List.countP_append, List.countP_singleton, List.length_append,
        List.length_singleton, true_or, decide_true, ↓reduceIte]
      exact Nat.add_le_add_right boosts 2
  | count index drop front back call split stage =>
      rw [split, countP_middle, stage] at boosts
      rw [countP_middle]
      exact boosts
  | drop index front back call split stage =>
      rw [split, countP_middle, stage] at boosts
      rw [countP_middle]
      simp only [reduceCtorEq, or_true, or_self, decide_true, decide_false, Bool.false_eq_true,
        ↓reduceIte] at boosts ⊢
      omega
  | queue index front back call split stage =>
      have added := s.scheduler.boosts_addMessage call.msg
      rw [split, countP_middle, stage] at boosts
      rw [countP_middle]
      simp only [reduceCtorEq, or_true, or_self, decide_true, decide_false, Bool.false_eq_true,
        ↓reduceIte] at boosts ⊢
      omega
  | finish index drop front back call record split stages =>
      rw [split, countP_middle] at boosts
      exact (Nat.add_le_add_left (Nat.mul_le_mul_left 2 (Nat.le_add_right _ _)) _).trans boosts
  | age => exact (Scheduler.boosts_applyAging s.scheduler).symm ▸ boosts
  | pick msg rest point picked =>
      exact (Nat.add_le_add_right (Scheduler.boosts_getNextMessage picked) _).trans boosts
  | _ => exact boosts

/-- No message is boosted more than twice. -/
theorem agingEventCount_le {registry : Finset ℤ} {acts : List Action}
    (run : exec System.step (.initial registry) acts = some s) :
    s.scheduler.agingEventCount ≤ 2 * s.sent.length := by
  have boosts : s.BoostsSent := exec_invariant BoostsSent
    (fun _ _ _ boosts taken => boosts.step (step_kind taken)) (.initial registry) run
  unfold BoostsSent Scheduler.boosts at boosts
  omega

end System

/-- **Every message queued arrives.** In every run, whatever the threads inside `sendMessage`
and the processes do in between: a message pending in the scheduler is stored in an inbox,
rejected or discarded once the dispatcher took five steps for each message pending and five
more, if it is at the highest priority; and otherwise once it took `5 * (most + 45)` steps, if
no more than `most` messages pend at once meanwhile. -/
theorem deliveredInTime {Q : PriorityQueue (Message Ticket) MessageComparator}
    {registry : Finset ℤ} {before after : List Action} {s t : System Q} {msg : Message Ticket}
    (most : ℕ) (fresh : ∀ act ∈ before ++ after, act.Fresh)
    (started : exec System.step (.initial registry) before = some s)
    (pending : msg ∈ s.scheduler.pendingMessages) (continued : exec System.step s after = some t)
    (enough : msg.priority = .high ∧
        5 * (s.scheduler.pendingCount + 1) ≤ after.countP (fun act => act = .dispatch) ∨
      (∀ middle, Visited System.step s after middle → middle.scheduler.pendingCount ≤ most) ∧
        5 * (most + 45) ≤ after.countP fun act => act = .dispatch) :
    t.Arrived msg.ticket := by
  have scheduled := System.scheduled_run
    (fun act member => fresh act (List.mem_append_left after member)) started
  have later : ∀ act ∈ after, act.Fresh :=
    fun act member => fresh act (List.mem_append_right before member)
  rcases enough with ⟨high, enough⟩ | ⟨few, enough⟩
  · have awaits := (System.awaits_of_pending True most scheduled pending fun _ => high).1 high
    exact awaits.arrived scheduled later (Or.inl trivial) continued (by omega)
  · have awaits := (System.awaits_of_pending False most scheduled pending False.elim).2
      (few s (visited_first s after))
    exact awaits.arrived scheduled later (Or.inr few) continued (by omega)

/-- A message at the highest priority is delivered within ten steps of the dispatcher. -/
theorem deliveredInTime_high :
    let before := [.enter (Message.create 1 2 "" .high 1 ""), .proceed 0 false, .proceed 0 false]
    let after := .proceed 0 false :: List.replicate 10 .dispatch
    ∃ s t : System (PriorityQueue.scanned MessageComparator), ∃ msg,
      exec System.step (.initial {1, 2}) before = some s ∧ msg ∈ s.scheduler.pendingMessages ∧
        exec System.step s after = some t ∧ t.Arrived msg.ticket := by
  intro before after
  have reached : (exec (System.step (Q := PriorityQueue.scanned MessageComparator))
      (.initial {1, 2}) before).any (fun s => decide ((∃ msg ∈ s.scheduler.pendingMessages,
        msg.priority = .high) ∧ s.scheduler.pendingCount = 1 ∧
        (exec System.step s after).isSome)) = true := by
    decide +kernel
  obtain ⟨s, started, holds⟩ := (Option.any_eq_true _ _).mp reached
  obtain ⟨⟨msg, pending, high⟩, alone, goesOn⟩ := of_decide_eq_true holds
  obtain ⟨t, continued⟩ := Option.isSome_iff_exists.mp goesOn
  have fresh : ∀ act ∈ before ++ after, act.Fresh := by decide
  have arrived := deliveredInTime 0 fresh started pending continued
    (Or.inl ⟨high, by rw [alone]; decide⟩)
  exact ⟨s, t, msg, started, pending, continued, arrived⟩

/-- **The scheduler's numbers fit.** In every run in which messages are passed as their
constructor makes them and at most `most` of them pend at once, however long it is: no pending
message was skipped since it was added or boosted more often than 24 times or than `most - 1`. So
with 32 bits no score the scheduler compares and no aging counter it raises overflows while fewer
than `2 ^ 31 - 30` messages pend at once. The count of aging events grows with the run, by two for
each message sent at most. -/
theorem schedulerCountersFit {Q : PriorityQueue (Message Ticket) MessageComparator}
    {registry : Finset ℤ} {acts : List Action} {s : System Q} {most : ℕ}
    (fresh : ∀ act ∈ acts, act.Fresh)
    (run : exec System.step (.initial registry) acts = some s)
    (few : ∀ middle, Visited System.step (.initial registry : System Q) acts middle →
      middle.scheduler.pendingCount ≤ most) :
    (∀ msg ∈ s.scheduler.pendingMessages,
      0 ≤ msg.agingCounter ∧ msg.agingCounter ≤ max 24 ((most : ℤ) - 1) ∧
        (most + 30 ≤ 2 ^ 31 → msg.score < 2 ^ 31 ∧ msg.skip.agingCounter < 2 ^ 31)) ∧
      s.scheduler.agingEventCount ≤ 2 * s.sent.length := by
  refine ⟨?_, System.agingEventCount_le run⟩
  intro msg pending
  have nonneg := (System.scheduled_run fresh run).ordered.nonneg msg pending
  have levels := msg.priority.toInt_bounds
  have counted : msg.priority.toInt = 3 ∧ msg.agingCounter < most ∨
      msg.priority.toInt ≤ 2 ∧ msg.agingCounter ≤ 24 := by
    by_cases high : msg.priority = .high
    · obtain ⟨front, back, split⟩ := List.append_of_mem pending
      have less := System.bounded_run fresh few run front msg back split high
      exact Or.inl ⟨(Priority.eq_high_iff _).mp high, by omega⟩
    · have level : msg.priority.toInt ≠ 3 := fun top => high ((Priority.eq_high_iff _).mpr top)
      exact Or.inr ⟨by omega, System.agingCounter_le fresh run pending high⟩
  refine ⟨nonneg, by omega, fun fits => ?_⟩
  rw [Message.score, Message.skip_agingCounter]
  omega

/-- Two low messages, one of which the dispatcher takes while the other is skipped. -/
theorem schedulerCountersFit_twoPending :
    let low := Message.create 1 2 "" .low 1 ""
    let acts := [.enter low, .proceed 0 false, .proceed 0 false, .enter low, .proceed 1 false,
      .proceed 1 false, .dispatch, .dispatch]
    ∃ s : System (PriorityQueue.scanned MessageComparator), ∃ msg,
      exec System.step (.initial {1, 2}) acts = some s ∧ msg ∈ s.scheduler.pendingMessages ∧
        msg.agingCounter = 1 ∧ msg.skip.agingCounter < 2 ^ 31 := by
  intro low acts
  have reached : (exec (System.step (Q := PriorityQueue.scanned MessageComparator))
      (.initial {1, 2}) acts).any (fun s => decide ((∃ msg ∈ s.scheduler.pendingMessages,
        msg.agingCounter = 1) ∧ s.scheduler.pendingCount ≤ 2)) = true := by
    decide +kernel
  have along : Along (fun s _ => s.scheduler.pendingCount ≤ 2) System.step
      (System.initial {1, 2} : System (PriorityQueue.scanned MessageComparator)) acts := by
    decide +kernel
  obtain ⟨s, run, holds⟩ := (Option.any_eq_true _ _).mp reached
  obtain ⟨⟨msg, pending, counter⟩, few⟩ := of_decide_eq_true holds
  have fresh : ∀ act ∈ acts, act.Fresh := by decide
  have ends : ∀ last, exec System.step (System.initial {1, 2}) acts = some last →
      last.scheduler.pendingCount ≤ 2 := fun last ended => by
    obtain rfl := Option.some.inj (run.symm.trans ended)
    exact few
  have fits := (schedulerCountersFit fresh run (of_visited along ends)).1 msg pending
  exact ⟨s, msg, run, pending, counter, (fits.2.2 (by decide)).2⟩

end MessagePassing
