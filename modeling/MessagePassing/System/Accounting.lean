import MessagePassing.System.Model

/-! # What the message manager's counters miss

Every message counted as sent is counted as dropped or as delivered, is pending, on
its way between two counters, or was rejected by a full inbox or discarded for want
of a receiver (`System.balanced_run`). The last two are counted nowhere, so the
counters balance exactly if no delivery failed (`lossesCounted_iff`).
-/

namespace MessagePassing

open Transition

/-- One while the dispatcher holds a message it took from the scheduler and has not
counted as delivered. -/
def DispatcherPoint.uncounted : DispatcherPoint → ℕ
  | .deliver _ | .countDelivered _ => 1
  | _ => 0

namespace System

variable {Q : PriorityQueue (Message Ticket) MessageComparator}

/-- Calls counted as sent, but neither dropped nor queued yet. -/
def drawing (calls : List SendCall) : ℕ := calls.countP fun call => call.stage = .counted

/-- Deliveries that failed. -/
def failures (s : System Q) : ℕ := s.rejected.length + s.discarded.length

/-- The accounts, with everything in flight and every failed delivery. -/
def Balanced (s : System Q) : Prop :=
  s.totalSent = s.totalDropped + s.totalDelivered + s.scheduler.pendingCount +
    drawing s.calls + s.dispatcher.uncounted + s.failures

theorem drawing_middle (front back : List SendCall) (call : SendCall) :
    drawing (front ++ call :: back) =
      drawing (front ++ back) + if call.stage = .counted then 1 else 0 := by
  rw [drawing, countP_middle]
  simp only [drawing, decide_eq_true_eq]

theorem pendingCount_addMessage (scheduler : Scheduler Ticket) (msg : Message Ticket) :
    (scheduler.addMessage msg).pendingCount = scheduler.pendingCount + 1 :=
  List.length_append

theorem pendingCount_applyAging (scheduler : Scheduler Ticket) :
    scheduler.applyAging.pendingCount = scheduler.pendingCount := List.length_map _

theorem pendingCount_getNextMessage {scheduler next : Scheduler Ticket} {out : Message Ticket}
    (picked : scheduler.getNextMessage = some (out, next)) :
    scheduler.pendingCount = next.pendingCount + 1 := by
  have tickets := (Scheduler.pending_tickets_perm picked).length_eq
  rw [List.length_map, List.length_cons, List.length_map] at tickets
  exact tickets

theorem Balanced.initial (registry : Finset ℤ) : (initial registry : System Q).Balanced := rfl

theorem Balanced.step {s next : System Q} {act : Action} (balanced : s.Balanced)
    (taken : s.step act = some next) : next.Balanced := by
  unfold Balanced failures at balanced ⊢
  cases step_kind taken with
  | generate => exact balanced
  | enter msg =>
      simp only [enterSend, drawing, List.countP_append, List.countP_singleton, reduceCtorEq,
        decide_false, Bool.false_eq_true, ↓reduceIte]
      exact balanced
  | control => exact balanced
  | send =>
      simp only [enterSend, drawing, List.countP_append, List.countP_singleton, reduceCtorEq,
        decide_false, Bool.false_eq_true, ↓reduceIte]
      exact balanced
  | count index drop front back call split stage =>
      rw [split, drawing_middle, stage] at balanced
      simp only [drawing_middle, reduceCtorEq, ↓reduceIte] at balanced ⊢
      omega
  | drop index front back call split stage =>
      rw [split, drawing_middle, stage] at balanced
      simp only [drawing_middle, reduceCtorEq, ↓reduceIte] at balanced ⊢
      omega
  | queue index front back call split stage =>
      rw [split, drawing_middle, stage] at balanced
      simp only [drawing_middle, reduceCtorEq, ↓reduceIte, pendingCount_addMessage] at balanced ⊢
      omega
  | finish index drop front back call record split stages =>
      rw [split, drawing_middle] at balanced
      rcases stages with ⟨stage, -⟩ | ⟨stage, -⟩ <;>
      · simp only [stage, reduceCtorEq, ↓reduceIte] at balanced
        exact balanced
  | run => exact balanced
  | age point due =>
      rw [point] at balanced
      simp only [pendingCount_applyAging]
      exact balanced
  | advance point early =>
      rw [point] at balanced
      exact balanced
  | pick msg rest point picked =>
      rw [point, pendingCount_getNextMessage picked] at balanced
      simp only [DispatcherPoint.uncounted] at balanced ⊢
      omega
  | idle point empty =>
      rw [point] at balanced
      exact balanced
  | accept msg queue point =>
      rw [point] at balanced
      exact balanced
  | reject msg record point =>
      rw [point] at balanced
      simp only [DispatcherPoint.uncounted, List.length_append, List.length_singleton] at balanced ⊢
      omega
  | discard msg point =>
      rw [point] at balanced
      simp only [DispatcherPoint.uncounted, List.length_append, List.length_singleton] at balanced ⊢
      omega
  | countDelivered msg point =>
      rw [point] at balanced
      simp only [DispatcherPoint.uncounted] at balanced ⊢
      omega
  | logDelivered msg record point =>
      rw [point] at balanced
      exact balanced
  | note msg record point =>
      rcases point with point | point <;>
      · rw [point] at balanced
        exact balanced

theorem balanced_run {registry : Finset ℤ} {acts : List Action} {s : System Q}
    (run : exec System.step (.initial registry) acts = some s) : s.Balanced :=
  exec_invariant Balanced (fun _ _ _ => Balanced.step) (.initial registry) run

/-- What was passed to `sendMessage` is counted there next. -/
def Passed (s : System Q) : Prop :=
  s.sent.length = s.totalSent + s.calls.countP fun call => call.stage = .entered

theorem Passed.step {s next : System Q} {act : Action} (passed : s.Passed)
    (kind : StepKind s act next) : next.Passed := by
  unfold Passed at passed ⊢
  cases kind with
  | enter msg =>
      simp only [enterSend, List.length_append, List.length_singleton, List.countP_append,
        List.countP_singleton, decide_true, ↓reduceIte]
      omega
  | send =>
      simp only [enterSend, List.length_append, List.length_singleton, List.countP_append,
        List.countP_singleton, decide_true, ↓reduceIte]
      exact congrArg (· + 1) passed
  | count index drop front back call split stage =>
      rw [split, countP_middle, stage] at passed
      simp only [countP_middle, decide_true, ↓reduceIte, reduceCtorEq, decide_false,
        Bool.false_eq_true] at passed ⊢
      omega
  | drop index front back call split stage =>
      rw [split, countP_middle, stage] at passed
      simp only [countP_middle, reduceCtorEq, decide_false, Bool.false_eq_true,
        ↓reduceIte] at passed ⊢
      exact passed
  | queue index front back call split stage =>
      rw [split, countP_middle, stage] at passed
      simp only [countP_middle, reduceCtorEq, decide_false, Bool.false_eq_true,
        ↓reduceIte] at passed ⊢
      exact passed
  | finish index drop front back call record split stages =>
      rw [split, countP_middle] at passed
      rcases stages with ⟨stage, -⟩ | ⟨stage, -⟩
      · simp only [stage, reduceCtorEq, decide_false, Bool.false_eq_true, ↓reduceIte] at passed
        exact passed
      · simp only [stage, reduceCtorEq, decide_false, Bool.false_eq_true, ↓reduceIte] at passed
        exact passed
  | _ => exact passed

theorem passed_run {registry : Finset ℤ} {acts : List Action} {s : System Q}
    (run : exec System.step (.initial registry) acts = some s) : s.Passed :=
  exec_invariant Passed (fun _ _ _ passed taken => passed.step (step_kind taken))
    (rfl : (initial registry : System Q).Passed) run

/-- The step is no delivery to a process not registered or to a full inbox. -/
def Deliverable (s : System Q) (act : Action) : Prop :=
  act = .dispatch → ∀ msg, s.dispatcher = .deliver msg →
    msg.receiverID ∈ s.registry ∧
      (s.processes msg.receiverID).queue.size < Config.maxQueueSize

theorem deliverable_of_ne {s : System Q} {act : Action}
    (other : ∀ msg, s.dispatcher ≠ .deliver msg) : s.Deliverable act :=
  fun _ msg point => absurd point (other msg)

/-- A delivery fails exactly at the steps that are not deliverable. -/
theorem failures_step {s next : System Q} {act : Action} (taken : s.step act = some next) :
    s.Deliverable act ∧ next.failures = s.failures ∨
      ¬ s.Deliverable act ∧ next.failures = s.failures + 1 := by
  have otherAct (different : act ≠ .dispatch) : s.Deliverable act := fun same =>
    absurd same different
  cases step_kind taken with
  | generate => exact Or.inl ⟨otherAct nofun, rfl⟩
  | enter msg => exact Or.inl ⟨otherAct nofun, rfl⟩
  | control _ _ _ different => exact Or.inl ⟨otherAct different, rfl⟩
  | send => exact Or.inl ⟨otherAct nofun, rfl⟩
  | count => exact Or.inl ⟨otherAct nofun, rfl⟩
  | drop => exact Or.inl ⟨otherAct nofun, rfl⟩
  | queue => exact Or.inl ⟨otherAct nofun, rfl⟩
  | finish => exact Or.inl ⟨otherAct nofun, rfl⟩
  | run => exact Or.inl ⟨otherAct nofun, rfl⟩
  | age point => exact Or.inl ⟨deliverable_of_ne fun _ => by rw [point]; exact nofun, rfl⟩
  | advance point => exact Or.inl ⟨deliverable_of_ne fun _ => by rw [point]; exact nofun, rfl⟩
  | pick _ _ point => exact Or.inl ⟨deliverable_of_ne fun _ => by rw [point]; exact nofun, rfl⟩
  | idle point => exact Or.inl ⟨deliverable_of_ne fun _ => by rw [point]; exact nofun, rfl⟩
  | accept msg queue point registered room =>
      refine Or.inl ⟨fun _ other same => ?_, rfl⟩
      rw [point, DispatcherPoint.deliver.injEq] at same
      subst same
      exact ⟨registered, room⟩
  | reject msg record point registered full =>
      refine Or.inr ⟨fun able => absurd (able rfl msg point).2 (not_lt.mpr full), ?_⟩
      simp only [failures, List.length_append, List.length_singleton]
      omega
  | discard msg point unregistered =>
      refine Or.inr ⟨fun able => absurd (able rfl msg point).1 unregistered, ?_⟩
      simp only [failures, List.length_append, List.length_singleton]
      omega
  | countDelivered _ point =>
      exact Or.inl ⟨deliverable_of_ne fun _ => by rw [point]; exact nofun, rfl⟩
  | logDelivered _ _ point =>
      exact Or.inl ⟨deliverable_of_ne fun _ => by rw [point]; exact nofun, rfl⟩
  | note _ _ point =>
      refine Or.inl ⟨deliverable_of_ne fun _ => ?_, rfl⟩
      rcases point with point | point <;>
      · rw [point]
        exact nofun

end System

/-- **When every lost message is counted.** In a state reached with no thread inside
`sendMessage` and the dispatcher between iterations, the messages sent are those
dropped, delivered or pending if and only if every message the dispatcher took was
for a registered process whose inbox had room. -/
theorem lossesCounted_iff {Q : PriorityQueue (Message Ticket) MessageComparator}
    {registry : Finset ℤ} {acts : List Action} {s : System Q}
    (run : exec System.step (.initial registry) acts = some s) (returned : s.calls = [])
    (between : s.dispatcher = .iteration) :
    s.totalSent = s.totalDropped + s.totalDelivered + s.scheduler.pendingCount ↔
      Along System.Deliverable System.step (System.initial registry : System Q) acts := by
  have balanced := System.balanced_run run
  rw [System.Balanced, returned, between] at balanced
  change s.totalSent = s.totalDropped + s.totalDelivered + s.scheduler.pendingCount + 0 + 0 +
    s.failures at balanced
  have unfailed : Along System.Deliverable System.step (System.initial registry) acts ↔
      s.failures = (System.initial registry : System Q).failures := along_iff_unchanged
    System.failures (fun _ _ _ taken able => (System.failures_step taken).elim And.right
      fun failed => absurd able failed.1)
    (fun _ _ _ taken unable => (System.failures_step taken).elim
      (fun kept => absurd kept.1 unable) fun failed => by omega) run
  have start : (System.initial registry : System Q).failures = 0 := rfl
  rw [unfailed, start]
  omega

/-- A message delivered to an inbox with room is counted. -/
theorem lossesCounted_delivered :
    let msg := Message.create 1 2 "" .medium 1 ""
    let acts := [.enter msg, .proceed 0 false, .proceed 0 false, .proceed 0 false] ++
      List.replicate 5 .dispatch
    ∃ s : System (PriorityQueue.scanned MessageComparator),
      exec System.step (.initial {1, 2}) acts = some s ∧ s.totalSent = 1 ∧
      s.totalDelivered = 1 ∧
      s.totalSent = s.totalDropped + s.totalDelivered + s.scheduler.pendingCount ∧
      Along System.Deliverable System.step
        (System.initial {1, 2} : System (PriorityQueue.scanned MessageComparator)) acts := by
  intro msg acts
  have reached : (exec (System.step (Q := PriorityQueue.scanned MessageComparator))
      (.initial {1, 2}) acts).any (fun s => decide (s.calls = [] ∧ s.dispatcher = .iteration ∧
        s.totalSent = 1 ∧ s.totalDelivered = 1 ∧
        s.totalSent = s.totalDropped + s.totalDelivered + s.scheduler.pendingCount)) = true := by
    decide +kernel
  obtain ⟨s, run, facts⟩ := (Option.any_eq_true _ _).mp reached
  obtain ⟨returned, between, sent, delivered, balanced⟩ := of_decide_eq_true facts
  exact ⟨s, run, sent, delivered, balanced, (lossesCounted_iff run returned between).mp balanced⟩

/-- The twenty-first message for a process that receives nothing is sent, and is
neither dropped nor delivered nor pending. -/
theorem rejected_uncounted :
    let msg := Message.create 1 2 "" .medium 1 ""
    let sends : List Action :=
      (List.replicate 21 [.enter msg, .proceed 0 false, .proceed 0 false, .proceed 0 false]).flatten
    ∃ s : System (PriorityQueue.scanned MessageComparator),
      exec System.step (.initial {1, 2}) (sends ++ List.replicate 104 .dispatch) = some s ∧
      s.calls = [] ∧ s.dispatcher = .iteration ∧
      s.totalSent ≠ s.totalDropped + s.totalDelivered + s.scheduler.pendingCount := by
  intro msg sends
  have reached : (exec (System.step (Q := PriorityQueue.scanned MessageComparator))
      (.initial {1, 2}) (sends ++ List.replicate 104 .dispatch)).any (fun s =>
        decide (s.calls = [] ∧ s.dispatcher = .iteration ∧
          s.totalSent ≠ s.totalDropped + s.totalDelivered + s.scheduler.pendingCount)) = true := by
    decide +kernel
  obtain ⟨s, run, facts⟩ := (Option.any_eq_true _ _).mp reached
  exact ⟨s, run, of_decide_eq_true facts⟩

end MessagePassing
