import Mathlib.Algebra.GroupWithZero.Nat
import Mathlib.Logic.Relation
import Mathlib.Order.Nat

/-! # Runs of labelled partial steps

A system is a partial step function: `step state action` is the next state, or
`none` when the action is not enabled. A schedule is a list of actions, and
`Transition.exec` runs one. The rules below are the induction principles of such
runs: an invariant kept by every step is kept by every run
(`Transition.exec_invariant`), also when it is about the actions taken
(`Transition.exec_invariant_past`) or only the steps meeting a side condition keep it
(`Transition.exec_invariant_along`); what is so at the end and was not at the beginning
a step brought about (`Transition.exists_step_of_change`); a number raised by exactly the steps
violating a condition tells whether all meet it (`Transition.along_iff_unchanged`);
a relation under which each step is matched by a schedule of another system relates
runs to runs (`Transition.exec_simulation`), and to runs that are no longer if each is matched by
one step or none (`Transition.exec_refinement`). Attempting actions, enabled or not, amounts
to a schedule of enabled ones (`Transition.exists_exec_attempt`).

Four kinds of arguments rest on them. A goal is reached in time
(`Transition.reached_of_budget`). Runs pay for their steps out of a potential
(`Transition.Pays.exec`). What a system holds goes from place to place by the legs that the
steps allow (`Transition.exec_journey`). A log that is written and never read has no
influence (`Transition.WriteOnly.exec_shared`).
-/

namespace Transition

variable {σ τ α β : Type*}

/-- The state after a schedule of actions, if each action is enabled in turn. -/
def exec (step : σ → α → Option σ) (state : σ) : List α → Option σ
  | [] => some state
  | action :: rest => (step state action).bind fun next => exec step next rest

/-- Every step a schedule takes meets a condition on the action and the state
before it. -/
def Along (condition : σ → α → Prop) (step : σ → α → Option σ) (state : σ) : List α → Prop
  | [] => True
  | action :: rest => condition state action ∧
      ∀ next, step state action = some next → Along condition step next rest

variable {step : σ → α → Option σ}

@[simp] theorem exec_nil (state : σ) : exec step state [] = some state := rfl

@[simp] theorem exec_cons (state : σ) (action : α) (rest : List α) :
    exec step state (action :: rest) =
      (step state action).bind fun next => exec step next rest := rfl

theorem exec_cons_eq_some {state last : σ} {action : α} {rest : List α} :
    exec step state (action :: rest) = some last ↔
      ∃ next, step state action = some next ∧ exec step next rest = some last := by
  rw [exec_cons, Option.bind_eq_some_iff]

/-- One action, or none where it is not enabled. -/
def attempt (step : σ → α → Option σ) (state : σ) (action : α) : σ :=
  (step state action).getD state

/-- What is reached by attempting actions in turn is reached by a schedule. -/
theorem exists_exec_attempt (state : σ) (actions : List α) :
    ∃ schedule, exec step state schedule = some (actions.foldl (attempt step) state) := by
  induction actions generalizing state with
  | nil => exact ⟨[], rfl⟩
  | cons action rest ih =>
      obtain ⟨schedule, run⟩ := ih (attempt step state action)
      rw [List.foldl_cons]
      cases taken : step state action with
      | none =>
          have same : attempt step state action = state := by rw [attempt, taken, Option.getD_none]
          exact ⟨schedule, by rwa [same] at run ⊢⟩
      | some next =>
          have moved : attempt step state action = next := by rw [attempt, taken, Option.getD_some]
          exact ⟨action :: schedule, exec_cons_eq_some.mpr ⟨next, taken, by rwa [moved] at run ⊢⟩⟩

theorem exec_append (state : σ) (first second : List α) :
    exec step state (first ++ second) =
      (exec step state first).bind fun middle => exec step middle second := by
  induction first generalizing state with
  | nil => rfl
  | cons action rest ih =>
      rw [List.cons_append, exec_cons, exec_cons]
      cases taken : step state action with
      | none => rfl
      | some next => exact ih next

theorem exec_append_eq_some {state last : σ} {first second : List α} :
    exec step state (first ++ second) = some last ↔
      ∃ middle, exec step state first = some middle ∧ exec step middle second = some last := by
  rw [exec_append, Option.bind_eq_some_iff]

/-- An invariant kept by every step is kept by every run. -/
theorem exec_invariant (invariant : σ → Prop)
    (preserved : ∀ state action next, invariant state → step state action = some next →
      invariant next)
    {state last : σ} {schedule : List α} (holds : invariant state)
    (run : exec step state schedule = some last) : invariant last := by
  induction schedule generalizing state with
  | nil => exact Option.some.inj run ▸ holds
  | cons action rest ih =>
      obtain ⟨next, taken, remaining⟩ := exec_cons_eq_some.mp run
      exact ih (preserved state action next holds taken) remaining

/-- An invariant of the state and the actions taken so far is kept by every run. -/
theorem exec_invariant_past (invariant : List α → σ → Prop)
    (preserved : ∀ past state action next, invariant past state →
      step state action = some next → invariant (past ++ [action]) next)
    {state last : σ} {schedule : List α} (holds : invariant [] state)
    (run : exec step state schedule = some last) : invariant schedule last := by
  suffices after : ∀ past, invariant past state → invariant (past ++ schedule) last from
    after [] holds
  clear holds
  induction schedule generalizing state with
  | nil =>
      intro past holds
      obtain rfl := Option.some.inj run
      exact (List.append_nil past).symm ▸ holds
  | cons action rest ih =>
      intro past holds
      obtain ⟨next, taken, remaining⟩ := exec_cons_eq_some.mp run
      have later := ih remaining (past ++ [action]) (preserved past state action next holds taken)
      rw [List.append_assoc] at later
      exact later

/-- An invariant kept by the steps meeting a condition is kept by the runs whose
steps all meet it. -/
theorem exec_invariant_along {condition : σ → α → Prop} (invariant : σ → Prop)
    (preserved : ∀ state action next, invariant state → condition state action →
      step state action = some next → invariant next)
    {state last : σ} {schedule : List α} (holds : invariant state)
    (along : Along condition step state schedule)
    (run : exec step state schedule = some last) : invariant last := by
  induction schedule generalizing state with
  | nil => exact Option.some.inj run ▸ holds
  | cons action rest ih =>
      obtain ⟨next, taken, remaining⟩ := exec_cons_eq_some.mp run
      exact ih (preserved state action next holds along.1 taken) (along.2 next taken) remaining

/-- A quantity no step lowers is not lowered by a run. -/
theorem exec_monotone [Preorder β] (quantity : σ → β)
    (grows : ∀ state action next, step state action = some next →
      quantity state ≤ quantity next)
    {state last : σ} {schedule : List α} (run : exec step state schedule = some last) :
    quantity state ≤ quantity last :=
  exec_invariant (fun later => quantity state ≤ quantity later)
    (fun _ _ _ below taken => below.trans (grows _ _ _ taken)) le_rfl run

theorem Along.mono {weak strong : σ → α → Prop}
    (implies : ∀ state action, strong state action → weak state action)
    {state : σ} {schedule : List α} (along : Along strong step state schedule) :
    Along weak step state schedule := by
  induction schedule generalizing state with
  | nil => trivial
  | cons action rest ih =>
      exact ⟨implies _ _ along.1, fun next taken => ih (along.2 next taken)⟩

theorem Along.and {first second : σ → α → Prop} {state : σ} {schedule : List α}
    (left : Along first step state schedule) (right : Along second step state schedule) :
    Along (fun state action => first state action ∧ second state action) step state schedule := by
  induction schedule generalizing state with
  | nil => trivial
  | cons action rest ih =>
      exact ⟨⟨left.1, right.1⟩, fun next taken => ih (left.2 next taken) (right.2 next taken)⟩

theorem along_of_forall_mem {condition : α → Prop} {schedule : List α}
    (meets : ∀ action ∈ schedule, condition action) (state : σ) :
    Along (fun _ action => condition action) step state schedule := by
  induction schedule generalizing state with
  | nil => trivial
  | cons action rest ih =>
      exact ⟨meets action List.mem_cons_self, fun next _ =>
        ih (fun later member => meets later (List.mem_cons_of_mem action member)) next⟩

/-- A run not all of whose steps meet a condition has a step that does not. -/
theorem exists_of_not_along {condition : σ → α → Prop} {state last : σ} {schedule : List α}
    (run : exec step state schedule = some last)
    (violated : ¬ Along condition step state schedule) :
    ∃ before action after middle next, schedule = before ++ action :: after ∧
      exec step state before = some middle ∧ ¬ condition middle action ∧
      step middle action = some next ∧ exec step next after = some last := by
  induction schedule generalizing state with
  | nil => exact absurd trivial violated
  | cons action rest ih =>
      obtain ⟨next, taken, remaining⟩ := exec_cons_eq_some.mp run
      by_cases meets : condition state action
      · have later : ¬ Along condition step next rest := by
          intro along
          apply violated
          refine ⟨meets, fun other reached => ?_⟩
          rw [taken, Option.some.injEq] at reached
          exact reached ▸ along
        obtain ⟨before, bad, after, middle, beyond, split, reached, failed⟩ := ih remaining later
        refine ⟨action :: before, bad, after, middle, beyond, ?_, ?_, failed⟩
        · rw [split, List.cons_append]
        · exact exec_cons_eq_some.mpr ⟨next, taken, reached⟩
      · exact ⟨[], action, rest, state, next, rfl, rfl, meets, taken, remaining⟩

/-- What is so after a run and was not before it, some step of the run brought about. -/
theorem exists_step_of_change (condition : σ → Prop) {state last : σ} {schedule : List α}
    (run : exec step state schedule = some last) (before : ¬ condition state)
    (after : condition last) :
    ∃ earlier action later middle next, schedule = earlier ++ action :: later ∧
      exec step state earlier = some middle ∧ step middle action = some next ∧
      ¬ condition middle ∧ condition next := by
  let keeps : σ → α → Prop := fun middle action =>
    ∀ next, step middle action = some next → condition next → condition middle
  have changed : ¬ Along keeps step state schedule := fun along =>
    exec_invariant_along (fun middle => ¬ condition middle)
      (fun _ _ next absent keeps taken there => absent (keeps next taken there)) before along run
      after
  obtain ⟨earlier, action, later, middle, next, split, reached, broken, taken, -⟩ :=
    exists_of_not_along run changed
  refine ⟨earlier, action, later, middle, next, split, reached, taken, ?_⟩
  obtain ⟨other, stepped, there, absent⟩ : ∃ other, step middle action = some other ∧
      condition other ∧ ¬ condition middle := by
    simpa only [keeps, not_forall, exists_prop] using broken
  obtain rfl := Option.some.inj (taken.symm.trans stepped)
  exact ⟨absent, there⟩

/-- What the steps of a schedule show, in order; a step may show nothing. -/
def shown (label : σ → α → Option β) (step : σ → α → Option σ) (state : σ) : List α → List β
  | [] => []
  | action :: rest => (label state action).toList ++
      ((step state action).map fun next => shown label step next rest).getD []

/-- One more step shows what it shows in the state it starts from. -/
theorem shown_append_singleton {label : σ → α → Option β} {state middle : σ} {past : List α}
    (reached : exec step state past = some middle) (action : α) :
    shown label step state (past ++ [action]) =
      shown label step state past ++ (label middle action).toList := by
  induction past generalizing state with
  | nil =>
      obtain rfl := Option.some.inj reached
      rw [List.nil_append, shown, shown, List.nil_append]
      cases step state action with
      | none => exact List.append_nil _
      | some next => exact List.append_nil _
  | cons first rest ih =>
      obtain ⟨next, taken, remaining⟩ := exec_cons_eq_some.mp reached
      rw [List.cons_append, shown, shown, taken, Option.map_some, Option.map_some,
        Option.getD_some, Option.getD_some, ih remaining, List.append_assoc]

/-- Whether a schedule meets a decidable condition is found by running it. -/
instance decidableAlong {condition : σ → α → Prop}
    [∀ state action, Decidable (condition state action)] :
    (state : σ) → (schedule : List α) → Decidable (Along condition step state schedule)
  | _, [] => isTrue trivial
  | state, action :: rest =>
      match taken : step state action with
      | none => decidable_of_iff (condition state action)
          ⟨fun meets => ⟨meets, fun _ reached => absurd (taken.symm.trans reached) nofun⟩, And.left⟩
      | some next =>
          have : Decidable (Along condition step next rest) := decidableAlong next rest
          decidable_of_iff (condition state action ∧ Along condition step next rest)
            ⟨fun ⟨meets, along⟩ => ⟨meets, fun _ reached =>
              Option.some.inj (taken.symm.trans reached) ▸ along⟩,
              fun along => ⟨along.1, along.2 next taken⟩⟩

/-- A natural number that grows exactly at the steps violating a condition is
unchanged over a run if and only if every step of the run meets the condition. -/
theorem along_iff_unchanged {condition : σ → α → Prop} (count : σ → ℕ)
    (kept : ∀ state action next, step state action = some next → condition state action →
      count next = count state)
    (raised : ∀ state action next, step state action = some next → ¬ condition state action →
      count state < count next)
    {state last : σ} {schedule : List α} (run : exec step state schedule = some last) :
    Along condition step state schedule ↔ count last = count state := by
  have grows : ∀ state action next, step state action = some next → count state ≤ count next := by
    intro state action next taken
    by_cases meets : condition state action
    · exact (kept state action next taken meets).ge
    · exact (raised state action next taken meets).le
  induction schedule generalizing state with
  | nil =>
      obtain rfl := Option.some.inj run
      exact iff_of_true trivial rfl
  | cons action rest ih =>
      obtain ⟨next, taken, remaining⟩ := exec_cons_eq_some.mp run
      have later := exec_monotone count grows remaining
      refine ⟨?_, ?_⟩
      · rintro ⟨meets, along⟩
        rw [(ih remaining).mp (along next taken), kept state action next taken meets]
      · intro unchanged
        have meets : condition state action := by
          by_contra violated
          have := raised state action next taken violated
          omega
        have same := kept state action next taken meets
        refine ⟨meets, fun other reached => ?_⟩
        rw [taken, Option.some.injEq] at reached
        exact reached ▸ (ih remaining).mpr (by omega)

/-- **Simulation.** If each step meeting a condition is matched by a schedule of allowed
actions of another system, so is each run whose steps meet it. -/
theorem exec_simulation {target : τ → β → Option τ} {condition : σ → α → Prop} {allowed : β → Prop}
    (related : σ → τ → Prop)
    (matched : ∀ state action next image, related state image → condition state action →
      step state action = some next → ∃ schedule reached, (∀ act ∈ schedule, allowed act) ∧
        exec target image schedule = some reached ∧ related next reached)
    {state last : σ} {schedule : List α} {image : τ} (start : related state image)
    (along : Along condition step state schedule) (run : exec step state schedule = some last) :
    ∃ schedule reached, (∀ act ∈ schedule, allowed act) ∧
      exec target image schedule = some reached ∧ related last reached := by
  induction schedule generalizing state image with
  | nil =>
      obtain rfl := Option.some.inj run
      exact ⟨[], image, fun _ absent => (List.not_mem_nil absent).elim, rfl, start⟩
  | cons action rest ih =>
      obtain ⟨next, taken, remaining⟩ := exec_cons_eq_some.mp run
      obtain ⟨first, middle, allowedFirst, reached, here⟩ :=
        matched state action next image start along.1 taken
      obtain ⟨later, final, allowedLater, beyond, there⟩ := ih here (along.2 next taken) remaining
      refine ⟨first ++ later, final, fun act member => ?_,
        exec_append_eq_some.mpr ⟨middle, reached, beyond⟩, there⟩
      exact (List.mem_append.mp member).elim (allowedFirst act) (allowedLater act)

/-- **Refinement.** If each step is matched by one step of another system or by none, each run is
matched by one that is no longer. -/
theorem exec_refinement {target : τ → β → Option τ} (related : σ → τ → Prop)
    (matched : ∀ state action next image, related state image → step state action = some next →
      related next image ∨ ∃ act reached, target image act = some reached ∧ related next reached)
    {state last : σ} {schedule : List α} {image : τ} (start : related state image)
    (run : exec step state schedule = some last) :
    ∃ coarse reached, exec target image coarse = some reached ∧
      coarse.length ≤ schedule.length ∧ related last reached := by
  induction schedule generalizing state image with
  | nil =>
      obtain rfl := Option.some.inj run
      exact ⟨[], image, rfl, le_rfl, start⟩
  | cons action rest ih =>
      obtain ⟨next, taken, remaining⟩ := exec_cons_eq_some.mp run
      rw [List.length_cons]
      rcases matched state action next image start taken with here | ⟨act, middle, moved, there⟩
      · obtain ⟨coarse, reached, onward, shorter, ends⟩ := ih here remaining
        exact ⟨coarse, reached, onward, shorter.trans (Nat.le_succ _), ends⟩
      · obtain ⟨coarse, reached, onward, shorter, ends⟩ := ih there remaining
        exact ⟨act :: coarse, reached, exec_cons_eq_some.mpr ⟨middle, moved, onward⟩,
          Nat.succ_le_succ shorter, ends⟩

/-! ## Reaching a goal in time

A run visits the states its prefixes lead to. A system that waits for a goal within a budget,
which the steps of one kind lower and no other raises, has reached it once a run takes more steps
of that kind than the budget allows, whatever other steps it takes in between.
-/

section Deadline

variable {state last : σ} {schedule : List α}

/-- A state a run passes through, the first and the last included. -/
def Visited (step : σ → α → Option σ) (state : σ) (schedule : List α) (middle : σ) : Prop :=
  ∃ earlier later, schedule = earlier ++ later ∧ exec step state earlier = some middle

theorem visited_first (state : σ) (schedule : List α) : Visited step state schedule state :=
  ⟨[], schedule, rfl, rfl⟩

theorem Visited.cons {next middle : σ} {action : α} (taken : step state action = some next)
    (visited : Visited step next schedule middle) :
    Visited step state (action :: schedule) middle := by
  obtain ⟨earlier, later, rfl, run⟩ := visited
  exact ⟨action :: earlier, later, rfl, exec_cons_eq_some.mpr ⟨next, taken, run⟩⟩

/-- A condition met before every step and at the end is met by every state visited. -/
theorem of_visited {condition : σ → Prop}
    (along : Along (fun state _ => condition state) step state schedule)
    (ends : ∀ last, exec step state schedule = some last → condition last) (middle : σ)
    (visited : Visited step state schedule middle) : condition middle := by
  induction schedule generalizing state with
  | nil =>
      obtain ⟨earlier, later, parts, run⟩ := visited
      obtain ⟨rfl, -⟩ := List.append_eq_nil_iff.mp parts.symm
      exact ends middle run
  | cons action rest ih =>
      obtain ⟨earlier, later, parts, run⟩ := visited
      rcases List.cons_eq_append_iff.mp parts with ⟨rfl, -⟩ | ⟨others, rfl, tail⟩
      · obtain rfl := Option.some.inj run
        exact along.1
      · obtain ⟨next, taken, remaining⟩ := exec_cons_eq_some.mp run
        refine ih (along.2 next taken) (fun last reached => ends last ?_)
          ⟨others, later, tail, remaining⟩
        exact exec_cons_eq_some.mpr ⟨next, taken, reached⟩

/-- An invariant kept between states that meet a condition is kept by the runs that visit such
states only. -/
theorem exec_invariant_visited (condition invariant : σ → Prop)
    (preserved : ∀ state action next, invariant state → condition state → condition next →
      step state action = some next → invariant next)
    (holds : invariant state)
    (meets : ∀ middle, Visited step state schedule middle → condition middle)
    (run : exec step state schedule = some last) : invariant last := by
  induction schedule generalizing state with
  | nil =>
      obtain rfl := Option.some.inj run
      exact holds
  | cons action rest ih =>
      obtain ⟨next, taken, remaining⟩ := exec_cons_eq_some.mp run
      have here := meets state (visited_first state _)
      have there := meets next ((visited_first next rest).cons taken)
      exact ih (preserved state action next holds here there taken)
        (fun middle visited => meets middle (visited.cons taken)) remaining

/-- Waiting goes on within the budget that the steps of a kind leave, or is over. -/
theorem reached_or_waiting (condition goal : σ → Prop) (waiting : ℕ → σ → Prop) {kind : α → Bool}
    (kept : ∀ state action next, goal state → step state action = some next → goal next)
    (moves : ∀ budget state action next, waiting budget state → condition state →
      step state action = some next →
      goal next ∨ ∃ left, waiting left next ∧ left + (if kind action then 1 else 0) ≤ budget)
    {budget : ℕ} (holds : waiting budget state)
    (meets : ∀ middle, Visited step state schedule middle → condition middle)
    (run : exec step state schedule = some last) :
    goal last ∨ ∃ left, waiting left last ∧ left + schedule.countP kind ≤ budget := by
  induction schedule generalizing state budget with
  | nil =>
      obtain rfl := Option.some.inj run
      exact Or.inr ⟨budget, holds, le_rfl⟩
  | cons action rest ih =>
      obtain ⟨next, taken, remaining⟩ := exec_cons_eq_some.mp run
      rcases moves budget state action next holds (meets state (visited_first state _)) taken with
        reached | ⟨left, waits, paid⟩
      · exact Or.inl (exec_invariant goal kept reached remaining)
      · rcases ih waits (fun middle visited => meets middle (visited.cons taken)) remaining with
          reached | ⟨rest, waits, less⟩
        · exact Or.inl reached
        · refine Or.inr ⟨rest, waits, ?_⟩
          rw [List.countP_cons]
          omega

/-- **Bounded waiting.** A run with more steps of the kind than the budget has reached the
goal. -/
theorem reached_of_budget (condition goal : σ → Prop) (waiting : ℕ → σ → Prop) {kind : α → Bool}
    (kept : ∀ state action next, goal state → step state action = some next → goal next)
    (moves : ∀ budget state action next, waiting budget state → condition state →
      step state action = some next →
      goal next ∨ ∃ left, waiting left next ∧ left + (if kind action then 1 else 0) ≤ budget)
    {budget : ℕ} (holds : waiting budget state)
    (meets : ∀ middle, Visited step state schedule middle → condition middle)
    (run : exec step state schedule = some last) (spent : budget < schedule.countP kind) :
    goal last := by
  rcases reached_or_waiting condition goal waiting kept moves holds meets run with
    reached | ⟨left, -, less⟩
  · exact reached
  · omega

end Deadline

/-! ## Runs that pay for their steps

If under an invariant every step pays the price of its action out of a potential, a run pays for
its whole schedule. A system that can lower the potential outside the final states can always
reach one.
-/

section Potential

variable {invariant final : σ → Prop} {potential : σ → ℕ} {price : α → ℕ} {state last : σ}
  {schedule : List α}

/-- The invariant is kept, and each step pays its price out of the potential. -/
structure Pays (step : σ → α → Option σ) (invariant : σ → Prop) (potential : σ → ℕ)
    (price : α → ℕ) : Prop where
  preserved : ∀ state action next, invariant state → step state action = some next →
    invariant next
  paid : ∀ state action next, invariant state → step state action = some next →
    potential next + price action ≤ potential state

namespace Pays

/-- A run pays for its schedule. -/
theorem exec (pays : Pays step invariant potential price) (holds : invariant state)
    (run : Transition.exec step state schedule = some last) :
    potential last + (schedule.map price).sum ≤ potential state := by
  induction schedule generalizing state with
  | nil =>
      obtain rfl := Option.some.inj run
      exact le_rfl
  | cons action rest ih =>
      obtain ⟨next, taken, remaining⟩ := exec_cons_eq_some.mp run
      have first := pays.paid state action next holds taken
      have later := ih (pays.preserved state action next holds taken) remaining
      rw [List.map_cons, List.sum_cons]
      omega

/-- Actions of a kind that costs one are no more than the potential. -/
theorem countP_le {kind : α → Bool}
    (pays : Pays step invariant potential fun action => if kind action then 1 else 0)
    (holds : invariant state) (run : Transition.exec step state schedule = some last) :
    potential last + schedule.countP kind ≤ potential state := by
  have paid := pays.exec holds run
  have counted : (schedule.map fun action => if kind action then 1 else 0).sum =
      schedule.countP kind := by
    clear run paid
    induction schedule with
    | nil => rfl
    | cons action rest ih => rw [List.map_cons, List.sum_cons, List.countP_cons, ih, Nat.add_comm]
  omega

/-- If every action costs, no run is longer than the potential. -/
theorem length_le (pays : Pays step invariant potential fun _ => 1) (holds : invariant state)
    (run : Transition.exec step state schedule = some last) :
    potential last + schedule.length ≤ potential state := by
  have paid := pays.exec holds run
  rw [List.map_const', List.sum_replicate_nat, Nat.mul_one] at paid
  exact paid

end Pays

/-- As long as outside the final states an allowed action lowers the potential, allowed
actions alone reach one. -/
theorem exists_exec_final {allowed : α → Prop}
    (descends : ∀ state, invariant state → ¬ final state → ∃ action next, allowed action ∧
      step state action = some next ∧ invariant next ∧ potential next < potential state)
    (holds : invariant state) : ∃ schedule last, (∀ action ∈ schedule, allowed action) ∧
      exec step state schedule = some last ∧ invariant last ∧ final last := by
  induction budget : potential state using Nat.strong_induction_on generalizing state with
  | _ budget ih =>
      by_cases finished : final state
      · exact ⟨[], state, fun _ absent => (List.not_mem_nil absent).elim, rfl, holds, finished⟩
      · obtain ⟨action, next, able, taken, kept, less⟩ := descends state holds finished
        obtain ⟨rest, last, allowed, run, invariant, done⟩ :=
          ih (potential next) (by omega) kept rfl
        refine ⟨action :: rest, last, fun other member => ?_, ?_, invariant, done⟩
        · rcases List.mem_cons.mp member with rfl | later
          · exact able
          · exact allowed other later
        · exact exec_cons_eq_some.mpr ⟨next, taken, run⟩

end Potential

/-! ## What happens to the things a system holds

A system holds things at places. If in every step what is there was there before, came by one leg
allowed in the state before the step, or is new, then in every run each thing came by a journey,
of one leg a step at most, from where it was at first or from where it was new.
-/

section Journeys

variable {ε κ : Type*} {travels : σ → ε → ε → Prop}

/-- In each step of a schedule a thing stays or takes one leg, from the state before it. -/
inductive Journey (step : σ → α → Option σ) (travels : σ → ε → ε → Prop) (state : σ) :
    List α → ε → ε → Prop
  | begin (schedule : List α) (entry : ε) : Journey step travels state schedule entry entry
  | stay {schedule : List α} {before after : ε} (action : α) :
      Journey step travels state schedule before after →
      Journey step travels state (schedule ++ [action]) before after
  | leg {schedule : List α} {middle : σ} {before between after : ε} (action : α) :
      Journey step travels state schedule before between →
      exec step state schedule = some middle → travels middle between after →
      Journey step travels state (schedule ++ [action]) before after

variable {state : σ} {schedule : List α} {before after : ε}

/-- A name that every leg keeps is kept on a journey. -/
theorem Journey.name_eq (name : ε → κ)
    (keeps : ∀ state before after, travels state before after → name after = name before)
    (journey : Journey step travels state schedule before after) : name after = name before := by
  induction journey with
  | begin => rfl
  | stay _ _ ih => exact ih
  | leg _ _ _ leg ih => exact (keeps _ _ _ leg).trans ih

/-- Where no leg leads on, a thing stays for good. -/
theorem Journey.eq_of_final (final : ε → Prop)
    (stuck : ∀ state before after, travels state before after → ¬ final before)
    (journey : Journey step travels state schedule before after) (ended : final before) :
    after = before := by
  induction journey with
  | begin => rfl
  | stay _ _ ih => exact ih ended
  | leg _ _ _ leg ih => exact absurd (ih ended ▸ ended) (stuck _ _ _ leg)

/-- **Journeys.** If everything stays, takes a leg or is new in a step, everything came by a
journey. -/
theorem exec_journey (invariant : σ → Prop) (holds : σ → ε → Prop) (isNew : ε → Prop)
    (preserved : ∀ state action next, invariant state → step state action = some next →
      invariant next)
    (legs : ∀ state action next entry, invariant state → step state action = some next →
      holds next entry → holds state entry ∨
        (∃ before, holds state before ∧ travels state before entry) ∨ isNew entry)
    {last : σ} (starts : invariant state) (run : exec step state schedule = some last) {entry : ε}
    (there : holds last entry) : ∃ first, (holds state first ∨ isNew first) ∧
      Journey step travels state schedule first entry := by
  have kept := exec_invariant_past
    (fun past last => exec step state past = some last ∧ invariant last ∧
      ∀ entry, holds last entry → ∃ first, (holds state first ∨ isNew first) ∧
        Journey step travels state past first entry) ?_
    ⟨rfl, starts, fun entry here => ⟨entry, Or.inl here, .begin [] entry⟩⟩ run
  · exact kept.2.2 entry there
  · rintro past middle action next ⟨reached, before, came⟩ taken
    refine ⟨exec_append_eq_some.mpr ⟨middle, reached, exec_cons_eq_some.mpr ⟨next, taken, rfl⟩⟩,
      preserved middle action next before taken, fun entry here => ?_⟩
    rcases legs middle action next entry before taken here with same | ⟨between, was, leg⟩ | new
    · obtain ⟨first, origin, journey⟩ := came entry same
      exact ⟨first, origin, journey.stay action⟩
    · obtain ⟨first, origin, journey⟩ := came between was
      exact ⟨first, origin, journey.leg action reached leg⟩
    · exact ⟨entry, Or.inr new, .begin _ entry⟩

end Journeys

/-! ## A log that is written and never read

A view of the states forgets the log. If states with one view take the same steps, up to the view,
and write the same to the log, then others may write to the log at any time: what is in view is
what it would be without them.
-/

section Noninterference

/-- The two lists merged, each kept in order. -/
inductive Interleaved : List β → List β → List β → Prop
  | nil : Interleaved [] [] []
  | left (b : β) {first second merged : List β} : Interleaved first second merged →
      Interleaved (b :: first) second (b :: merged)
  | right (b : β) {first second merged : List β} : Interleaved first second merged →
      Interleaved first (b :: second) (b :: merged)

theorem Interleaved.append_left (more : List β) {first second merged : List β}
    (interleaved : Interleaved first second merged) :
    Interleaved (more ++ first) second (more ++ merged) := by
  induction more with
  | nil => exact interleaved
  | cons b rest ih => exact .left b ih

/-- The steps of a system, and entries others write. -/
def shared (step : σ → α → Option σ) (write : σ → β → σ) (state : σ) : α ⊕ β → Option σ
  | .inl action => step state action
  | .inr entry => some (write state entry)

/-- Steps and view do not depend on the log, which steps and others extend. -/
structure WriteOnly (view : σ → τ) (log : σ → List β) (step : σ → α → Option σ)
    (write : σ → β → σ) : Prop where
  blind : ∀ ⦃first second : σ⦄, view first = view second → ∀ action,
    (step first action = none ∧ step second action = none) ∨
      ∃ next other written, step first action = some next ∧ step second action = some other ∧
        view next = view other ∧ log next = log first ++ written ∧
        log other = log second ++ written
  unseen : ∀ state entry, view (write state entry) = view state
  entered : ∀ state entry, log (write state entry) = log state ++ [entry]

/-- The states are the same for all that is in view. -/
structure SameView (view : σ → τ) (log : σ → List β) (first second : σ) (foreign : List β)
    (last alone : σ) : Prop where
  view : view last = view alone
  log : ∃ own merged, log alone = log second ++ own ∧ log last = log first ++ merged ∧
    Interleaved own foreign merged

variable {view : σ → τ} {log : σ → List β} {write : σ → β → σ}

/-- **Writing to the log disturbs nothing.** A schedule with entries of others is possible
exactly if it is without them, and leads to what looks the same. -/
theorem WriteOnly.exec_shared (writeOnly : WriteOnly view log step write) {first second : σ}
    (same : view first = view second) (schedule : List (α ⊕ β)) :
    (exec (shared step write) first schedule = none ∧
        exec step second (schedule.filterMap Sum.getLeft?) = none) ∨
      ∃ last alone, exec (shared step write) first schedule = some last ∧
        exec step second (schedule.filterMap Sum.getLeft?) = some alone ∧
        SameView view log first second (schedule.filterMap Sum.getRight?) last alone := by
  induction schedule generalizing first second with
  | nil =>
      refine Or.inr ⟨first, second, rfl, rfl, same, [], [], ?_, ?_, .nil⟩
      · rw [List.append_nil]
      · rw [List.append_nil]
  | cons turn rest ih =>
      cases turn with
      | inl action =>
          change ((step first action).bind _ = none ∧ (step second action).bind _ = none) ∨
            ∃ last alone, (step first action).bind _ = some last ∧
              (step second action).bind _ = some alone ∧ _
          rcases writeOnly.blind same action with ⟨none, other⟩ |
            ⟨next, other, written, taken, follows, seen, grown, followed⟩
          · rw [none, other]
            exact Or.inl ⟨rfl, rfl⟩
          · rw [taken, follows]
            rcases ih seen with stuck | ⟨last, alone, run, own, kept, entries, merged, mine, all,
              interleaved⟩
            · exact Or.inl stuck
            · refine Or.inr ⟨last, alone, run, own, kept, written ++ entries, written ++ merged,
                ?_, ?_, interleaved.append_left written⟩
              · rw [mine, followed, List.append_assoc]
              · rw [all, grown, List.append_assoc]
      | inr entry =>
          rcases ih ((writeOnly.unseen first entry).trans same) with stuck |
            ⟨last, alone, run, own, kept, entries, merged, mine, all, interleaved⟩
          · exact Or.inl stuck
          · refine Or.inr ⟨last, alone, run, own, kept, entries, entry :: merged, mine, ?_,
              .right entry interleaved⟩
            rw [all, writeOnly.entered, List.append_assoc, List.singleton_append]

end Noninterference

end Transition
