import MessagePassing.System.Lifecycle

/-! # The program refines the system

What threads there are and which flags are set follows from the point `main` has reached
(`Program.Supervised`). So no thread takes a step before all processes are registered, and
every run of the program is one of `System` over all of them, but for what `main` writes to
the log itself (`Program.Refines.step`): what holds in every run of the system holds inside
the program.
-/

namespace MessagePassing

open Transition

variable {Q : PriorityQueue (Message Ticket) MessageComparator}

namespace Program

variable {p next : Program Q} {act : ProgramAction} {schedule : List Action} {image : System Q}

/-! ## `main` and its threads -/

/-- The threads there are, and the flags that are set, are those of the point `main` has
reached. -/
structure Supervised (p : Program Q) : Prop where
  registry : p.system.registry = registeredIDs (p.main.registered p.numProcesses)
  created : ∀ id, p.loop id ≠ .absent →
    ∃ i < p.numProcesses, id = processID i ∧ p.main.started i
  creates : ∀ i < p.numProcesses, p.main.started i → p.loop (processID i) ≠ .absent
  dispatcher : p.dispatcherLoop ≠ .absent ↔ p.main.dispatcherStarted
  running : ∀ id, p.running id = true →
    ∃ i < p.numProcesses, id = processID i ∧ ¬ p.main.stopped i
  dispatcherRunning : p.dispatcherRunning = true → ¬ p.main.dispatcherStopped
  joined : ∀ i < p.numProcesses, p.main.joined i → p.loop (processID i) = .returned
  dispatcherJoined : p.main.dispatcherJoined → p.dispatcherLoop = .returned

theorem processID_injective {i j : ℕ} (same : processID i = processID j) : i = j := by
  unfold processID at same
  omega

theorem Supervised.initial (mode : Mode) (numProcesses : ℕ) :
    (initial mode numProcesses : Program Q).Supervised where
  registry := rfl
  created _ present := absurd rfl present
  creates _ _ := False.elim
  dispatcher := iff_of_false (fun present => present rfl) id
  running _ set := Bool.noConfusion set
  dispatcherRunning set := Bool.noConfusion set
  joined _ _ := False.elim
  dispatcherJoined := False.elim

/-- Threads neither come into being nor disappear by themselves, and do not come back. -/
theorem Supervised.of_threads (supervised : p.Supervised) (main : next.main = p.main)
    (numProcesses : next.numProcesses = p.numProcesses)
    (registry : next.system.registry = p.system.registry)
    (running : next.running = p.running)
    (dispatcherRunning : next.dispatcherRunning = p.dispatcherRunning)
    (present : ∀ id, next.loop id = .absent ↔ p.loop id = .absent)
    (gone : ∀ id, p.loop id = .returned → next.loop id = .returned)
    (dispatcherPresent : next.dispatcherLoop = .absent ↔ p.dispatcherLoop = .absent)
    (dispatcherGone : p.dispatcherLoop = .returned → next.dispatcherLoop = .returned) :
    next.Supervised where
  registry := by rw [registry, main, numProcesses, supervised.registry]
  created id there := by
    rw [main, numProcesses]
    exact supervised.created id fun absent => there ((present id).mpr absent)
  creates i below started absent := by
    rw [main] at started
    rw [numProcesses] at below
    exact supervised.creates i below started ((present _).mp absent)
  dispatcher := by
    rw [main, ← supervised.dispatcher, ne_eq, ne_eq, dispatcherPresent]
  running id set := by
    rw [running] at set
    rw [main, numProcesses]
    exact supervised.running id set
  dispatcherRunning set := by
    rw [dispatcherRunning] at set
    rw [main]
    exact supervised.dispatcherRunning set
  joined i below joined := by
    rw [main] at joined
    rw [numProcesses] at below
    exact gone _ (supervised.joined i below joined)
  dispatcherJoined joined := by
    rw [main] at joined
    exact dispatcherGone (supervised.dispatcherJoined joined)

theorem registry_attempt (s : System Q) (act : Action) :
    (attempt System.step s act).registry = s.registry := by
  rw [attempt]
  cases taken : s.step act with
  | none => rfl
  | some next => exact System.registry_step (System.step_kind taken)

/-- A thread that moves on in its loop is there before and after. -/
theorem present_update {loop : ℤ → LoopPoint} {id : ℤ} {point : LoopPoint}
    (before : loop id ≠ .absent) (after : point ≠ .absent) (i : ℤ) :
    Function.update loop id point i = .absent ↔ loop i = .absent := by
  by_cases here : i = id
  · subst here
    simp only [Function.update_self, before, after]
  · simp only [Function.update_of_ne here]

/-- A thread that moves on in its loop has not returned. -/
theorem returned_update {loop : ℤ → LoopPoint} {id : ℤ} {point : LoopPoint}
    (before : loop id ≠ .returned) {i : ℤ} (returned : loop i = .returned) :
    Function.update loop id point i = .returned := by
  have other : i ≠ id := fun same => before (same ▸ returned)
  rw [Function.update_of_ne other, returned]

theorem Supervised.pass (supervised : p.Supervised) {main : MainPoint}
    (passes : p.main.Passes p.numProcesses main) (messages : List String) (globalStop : Bool)
    (timer : TimerPoint) : ({ p with
      system := p.system.info messages
      globalStop := globalStop
      timer := timer
      main := main } : Program Q).Supervised where
  registry := by
    rw [passes.registered_eq]
    exact supervised.registry
  created id there := by
    obtain ⟨i, below, same, started⟩ := supervised.created id there
    exact ⟨i, below, same, (passes.started_iff below).mpr started⟩
  creates i below started := supervised.creates i below ((passes.started_iff below).mp started)
  dispatcher := supervised.dispatcher.trans passes.dispatcherStarted_iff.symm
  running id set := by
    obtain ⟨i, below, same, going⟩ := supervised.running id set
    exact ⟨i, below, same, fun stopped => going ((passes.stopped_iff below).mp stopped)⟩
  dispatcherRunning set stopped :=
    supervised.dispatcherRunning set (passes.dispatcherStopped_iff.mp stopped)
  joined i below joined := supervised.joined i below ((passes.joined_iff below).mp joined)
  dispatcherJoined joined := supervised.dispatcherJoined (passes.dispatcherJoined_iff.mp joined)

theorem Supervised.step (supervised : p.Supervised) (taken : p.step act = some next) :
    next.Supervised := by
  obtain ⟨registry, created, creates, dispatcher, running, dispatcherRunning, joined,
    dispatcherJoined⟩ := id supervised
  cases step_move taken with
  | register i point more =>
      rw [point] at registry created creates dispatcher running
      rw [point] at dispatcherRunning joined dispatcherJoined
      refine ⟨?_, created, creates, dispatcher, running, dispatcherRunning, joined,
        dispatcherJoined⟩
      change insert (processID i) p.system.registry = _
      simp only [registry, MainPoint.registered, registeredIDs, Nat.min_eq_left more.le,
        Nat.min_eq_left (Nat.succ_le_of_lt more), Finset.range_add_one, Finset.image_insert]
      rfl
  | startDispatcher point =>
      rw [point] at registry created creates running joined
      refine ⟨registry, created, creates, ?_, running, fun _ => id, joined, False.elim⟩
      exact iff_of_true LoopPoint.noConfusion trivial
  | start i point more =>
      rw [point] at registry created creates dispatcher running
      rw [point] at dispatcherRunning joined dispatcherJoined
      refine ⟨registry, ?_, ?_, dispatcher, ?_, dispatcherRunning, fun _ _ => False.elim,
        dispatcherJoined⟩
      · intro id there
        dsimp only at there ⊢
        by_cases here : id = processID i
        · exact ⟨i, more, here, Nat.lt_succ_self i⟩
        · rw [Function.update_of_ne here] at there
          obtain ⟨j, below, same, started⟩ := created id there
          exact ⟨j, below, same, Nat.lt_succ_of_lt started⟩
      · intro j below started
        dsimp only
        by_cases here : j = i
        · subst here
          simp only [Function.update_self, ne_eq, reduceCtorEq, not_false_eq_true]
        · rw [Function.update_of_ne fun same => here (processID_injective same)]
          exact creates j below (lt_of_le_of_ne (Nat.le_of_lt_succ started) here)
      · intro id set
        dsimp only at set
        by_cases here : id = processID i
        · exact ⟨i, more, here, not_false⟩
        · rw [Function.update_of_ne here] at set
          exact running id set
  | stop i point more =>
      rw [point] at registry created creates dispatcher running
      rw [point] at dispatcherRunning joined dispatcherJoined
      refine ⟨registry, created, creates, dispatcher, ?_, dispatcherRunning, fun _ _ => False.elim,
        dispatcherJoined⟩
      intro id set
      dsimp only at set
      by_cases here : id = processID i
      · subst here
        rw [Function.update_self] at set
        cases set
      · rw [Function.update_of_ne here] at set
        obtain ⟨j, below, rfl, going⟩ := running id set
        refine ⟨j, below, rfl, fun stopped => going ?_⟩
        exact lt_of_le_of_ne (Nat.le_of_lt_succ stopped) fun same => here (congrArg _ same)
  | stopDispatcher point =>
      rw [point] at registry created creates dispatcher running joined dispatcherJoined
      exact ⟨registry, created, creates, dispatcher, running, fun set => Bool.noConfusion set,
        fun _ _ => False.elim, False.elim⟩
  | joinDispatcher point returned =>
      rw [point] at registry created creates dispatcher running dispatcherRunning joined
      exact ⟨registry, created, creates, dispatcher, running, dispatcherRunning,
        fun _ _ joined => (Nat.not_lt_zero _ joined).elim, fun _ => returned⟩
  | join i point more returned =>
      rw [point] at registry created creates dispatcher running
      rw [point] at dispatcherRunning joined dispatcherJoined
      refine ⟨registry, created, creates, dispatcher, running, dispatcherRunning, ?_,
        dispatcherJoined⟩
      intro j below before
      by_cases here : j = i
      · rw [here]
        exact returned
      · exact joined j below (lt_of_le_of_ne (Nat.le_of_lt_succ before) here)
  | pass _ messages globalStop timer main _ _ passes =>
      exact supervised.pass passes messages globalStop timer
  | interrupt =>
      exact supervised.of_threads rfl rfl rfl rfl rfl (fun _ => Iff.rfl) (fun _ => id) Iff.rfl id
  | tick =>
      exact supervised.of_threads rfl rfl rfl rfl rfl (fun _ => Iff.rfl) (fun _ => id) Iff.rfl id
  | enter id checks =>
      exact supervised.of_threads rfl rfl (registry_attempt _ _) rfl rfl
        (present_update (by rw [checks]; decide) LoopPoint.noConfusion)
        (fun _ => returned_update (by rw [checks]; decide)) Iff.rfl fun same => same
  | leave id checks =>
      exact supervised.of_threads rfl rfl (registry_attempt _ _) rfl rfl
        (present_update (by rw [checks]; decide) LoopPoint.noConfusion)
        (fun _ => returned_update (by rw [checks]; decide)) Iff.rfl fun same => same
  | checkDispatcher checks =>
      refine supervised.of_threads rfl rfl rfl rfl rfl (fun _ => Iff.rfl) (fun _ => id) ?_ ?_
      · rw [checks]
        cases p.dispatcherRunning <;> exact ⟨LoopPoint.noConfusion, LoopPoint.noConfusion⟩
      · rw [checks]
        exact LoopPoint.noConfusion
  | thread act system enabled stepped =>
      refine supervised.of_threads (afterStep_main ..) (afterStep_numProcesses ..) ?_
        (afterStep_running ..) (afterStep_dispatcherRunning ..) ?_ ?_ ?_ ?_
      · rw [afterStep_system]
        exact System.registry_step (System.step_kind stepped)
      · intro id
        rw [afterStep_loop]
        split
        · rename_i back
          rw [back.1] at enabled
          rw [show p.loop id = .inside from enabled]
          decide
        · rfl
      · intro id returned
        rw [afterStep_loop, if_neg]
        · exact returned
        · intro back
          rw [back.1] at enabled
          exact LoopPoint.noConfusion (returned.symm.trans enabled)
      · rw [afterStep_dispatcherLoop]
        split
        · rename_i back
          rw [back.1] at enabled
          rw [show p.dispatcherLoop = .inside from enabled]
          decide
        · rfl
      · intro returned
        rw [afterStep_dispatcherLoop, if_neg]
        · exact returned
        · intro back
          rw [back.1] at enabled
          exact LoopPoint.noConfusion (returned.symm.trans enabled)

end Program

/-! ## Simulation -/

namespace Logger

theorem SameCounts.log {first second : Logger} (same : SameCounts first second)
    (record : LogRecord) : SameCounts (first.log record) (second.log record) where
  totalSent := by rw [Logger.log, Logger.log, same.totalSent]
  totalReceived := by rw [Logger.log, Logger.log, same.totalReceived]
  totalDropped := by rw [Logger.log, Logger.log, same.totalDropped]

theorem SameCounts.logAll {first second : Logger} (same : SameCounts first second)
    (records : List LogRecord) : SameCounts (first.logAll records) (second.logAll records) := by
  induction records generalizing first second with
  | nil => exact same
  | cons record rest ih => exact ih (same.log record)

end Logger

/-- A step of a process, of its call or of the dispatcher. -/
def Action.Own : Action → Prop
  | .generateMessageID | .enter _ => False
  | _ => True

/-- A process puts the ID it takes from the counter on one message. -/
theorem System.takesIDs_of_own {acts : List Action} (own : ∀ act ∈ acts, act.Own) (s : System Q) :
    Along TakesID System.step s acts := by
  refine (along_of_forall_mem own s).mono fun _ act own msg enters => ?_
  rw [enters] at own
  exact own.elim

namespace Program

variable {p next : Program Q} {act : ProgramAction} {schedule : List Action} {image : System Q}

/-- The system inside the program is one that a run reaches, but for what `main` wrote to
the log. -/
structure Refines (p : Program Q) (schedule : List Action) (image : System Q) : Prop where
  run : exec System.step (.initial (registeredIDs (p.main.registered p.numProcesses)))
    schedule = some image
  same : p.system = image.withLogger p.system.logger
  counts : image.logger.SameCounts p.system.logger
  records : image.logger.records.Sublist p.system.logger.records
  idle : ¬ p.main.dispatcherStarted → schedule = []
  own : p.mode ≠ .stressTest → ∀ act ∈ schedule, act.Own

theorem Refines.initial (mode : Mode) (numProcesses : ℕ) :
    (initial mode numProcesses : Program Q).Refines [] (.initial ∅) where
  run := rfl
  same := rfl
  counts := .refl _
  records := .refl _
  idle _ := rfl
  own _ _ absent := (List.not_mem_nil absent).elim

/-- What `main` writes itself is counted by no counter. -/
theorem sameCounts_info (s : System Q) (messages : List String) :
    s.logger.SameCounts (s.info messages).logger := by
  apply Logger.sameCounts_logAll
  intro record member
  obtain ⟨msg, -, rfl⟩ := List.mem_map.mp member
  exact (by decide : Logger.Uncounted .general)

theorem records_info (s : System Q) (messages : List String) :
    s.logger.records.Sublist (s.info messages).logger.records := by
  change s.logger.records.Sublist (s.logger.logAll (messages.map LogRecord.info)).records
  rw [Logger.logAll_records]
  exact List.sublist_append_left ..

/-- A step of the system inside the program is one of the system it refines. -/
theorem Refines.exists_step (refines : p.Refines schedule image) {act : Action}
    {system : System Q} (stepped : p.system.step act = some system) :
    ∃ next, image.step act = some next ∧ system = next.withLogger system.logger ∧
      next.logger.SameCounts system.logger ∧
      next.logger.records.Sublist system.logger.records := by
  rw [refines.same, System.step_withLogger] at stepped
  obtain ⟨next, taken, rfl⟩ := Option.map_eq_some_iff.mp stepped
  refine ⟨next, taken, rfl, ?_, ?_⟩
  · rw [System.logger_of_step taken]
    exact refines.counts.logAll _
  · change next.logger.records.Sublist (p.system.logger.logAll (image.written act)).records
    rw [System.logger_of_step taken, Logger.logAll_records, Logger.logAll_records]
    exact refines.records.append_right _

/-- Once there are threads, a program whose system took a step refines the system that took
it as well. -/
theorem Refines.extend (refines : p.Refines schedule image) (next : Program Q) (act : Action)
    (begun : p.main.dispatcherStarted) (main : next.main = p.main) (mode : next.mode = p.mode)
    (numProcesses : next.numProcesses = p.numProcesses) (own : p.mode ≠ .stressTest → act.Own)
    (stepped : p.system.step act = some next.system) :
    ∃ more later, more.length ≤ 1 ∧ next.Refines (schedule ++ more) later := by
  obtain ⟨later, taken, same, counts, records⟩ := refines.exists_step stepped
  refine ⟨[act], later, le_rfl, ?_, same, counts, records, ?_, ?_⟩
  · rw [main, numProcesses]
    exact exec_append_eq_some.mpr ⟨image, refines.run, exec_cons_eq_some.mpr ⟨later, taken, rfl⟩⟩
  · rw [main]
    exact fun idle => absurd begun idle
  · rw [mode]
    intro plain other member
    rcases List.mem_append.mp member with earlier | last
    · exact refines.own plain other earlier
    · exact List.mem_singleton.mp last ▸ own plain

/-- A change outside the system is none to the system refined. -/
theorem Refines.keep (refines : p.Refines schedule image) (next : Program Q)
    (system : next.system = p.system)
    (registered : next.main.registered next.numProcesses = p.main.registered p.numProcesses)
    (started : next.main.dispatcherStarted ∨
      (next.main.dispatcherStarted ↔ p.main.dispatcherStarted))
    (mode : next.mode = p.mode) : next.Refines schedule image where
  run := registered ▸ refines.run
  same := system ▸ refines.same
  counts := system ▸ refines.counts
  records := system ▸ refines.records
  idle idle := by
    rcases started with begun | same
    · exact absurd begun idle
    · exact refines.idle fun begun => idle (same.mpr begun)
  own plain := refines.own (mode ▸ plain)

theorem Refines.still (refines : next.Refines schedule image) :
    ∃ more later, more.length ≤ 1 ∧ next.Refines (schedule ++ more) later :=
  ⟨[], image, Nat.zero_le 1, (List.append_nil schedule).symm ▸ refines⟩

/-- Threads take steps after `main` has created them. -/
theorem Supervised.begun (supervised : p.Supervised) {id : ℤ} (there : p.loop id ≠ .absent) :
    p.main.dispatcherStarted := by
  obtain ⟨i, -, -, started⟩ := supervised.created id there
  cases point : p.main with
  | setup => exact (point ▸ started : MainPoint.started i .setup).elim
  | register turns => exact (point ▸ started : MainPoint.started i (.register turns)).elim
  | startDispatcher => exact (point ▸ started : MainPoint.started i .startDispatcher).elim
  | _ => trivial

/-- A process that tests its flag takes a step of the system, or none. -/
theorem Refines.attempt (refines : p.Refines schedule image) (begun : p.main.dispatcherStarted)
    (act : Action) (own : act.Own) (loop : ℤ → LoopPoint) : ∃ more later, more.length ≤ 1 ∧
      ({ p with system := attempt System.step p.system act, loop := loop } : Program Q).Refines
        (schedule ++ more) later := by
  cases stepped : p.system.step act with
  | none =>
      have same : Transition.attempt System.step p.system act = p.system := by
        rw [Transition.attempt, stepped, Option.getD_none]
      rw [same]
      exact (refines.keep { p with loop := loop } rfl rfl (Or.inl begun) rfl).still
  | some system =>
      have moved : Transition.attempt System.step p.system act = system := by
        rw [Transition.attempt, stepped, Option.getD_some]
      rw [moved]
      exact refines.extend { p with system := system, loop := loop } act begun rfl rfl rfl
        (fun _ => own) stepped

/-- No thread takes a step of the system before `main` starts the dispatcher. -/
theorem Refines.begun_of_step (refines : p.Refines schedule image) (supervised : p.Supervised)
    {act : Action} {system : System Q} (enabled : p.Enabled act)
    (stepped : p.system.step act = some system) : p.main.dispatcherStarted := by
  by_contra idle
  have tested : p.mode = .stressTest ∧ p.main = .simulate 0 → False := by
    intro testing
    rw [testing.2] at idle
    exact idle trivial
  have absent (id : ℤ) (inside : p.loop id = .inside) : False :=
    idle (supervised.begun (by rw [inside]; decide))
  cases act with
  | generateMessageID => exact tested enabled
  | enter => exact tested enabled
  | start => exact enabled
  | stop => exact enabled
  | send id => exact absent id enabled
  | run id => exact absent id enabled
  | dispatch =>
      have inside : p.dispatcherLoop = .inside := enabled
      exact idle (supervised.dispatcher.mp (by rw [inside]; decide))
  | proceed index drop =>
      have nothing : p.system.calls = [] := by
        have run := refines.run
        rw [refines.idle idle, exec_nil, Option.some.injEq] at run
        rw [refines.same, ← run]
        rfl
      rw [System.step, System.sendMessage, nothing] at stepped
      cases stepped

theorem Refines.register (refines : p.Refines schedule image) {i : ℕ}
    (point : p.main = .register i) (more : i < p.numProcesses) :
    ({ p with
      system := p.system.registerProcess (processID i) (priorities i)
      main := .register (i + 1) } : Program Q).Refines []
        (.initial (registeredIDs (i + 1))) := by
  have nothing := refines.idle (by rw [point]; exact id)
  have run := refines.run
  rw [nothing, exec_nil, Option.some.injEq, point, MainPoint.registered,
    Nat.min_eq_left more.le] at run
  have all : insert (processID i) (registeredIDs i) = registeredIDs (i + 1) := by
    rw [registeredIDs, registeredIDs, Finset.range_add_one, Finset.image_insert]
    rfl
  refine ⟨?_, ?_, ?_, ?_, fun _ => rfl, fun _ _ absent => (List.not_mem_nil absent).elim⟩
  · rw [exec_nil, MainPoint.registered, Nat.min_eq_left more]
  · have same := refines.same
    rw [← run] at same
    rw [same, ← all]
    unfold System.registerProcess System.info System.withLogger System.setProcess System.initial
    simp only [Function.update_eq_self]
  · have counts := refines.counts
    rw [← run] at counts
    exact counts.trans (sameCounts_info _ _)
  · have records := refines.records
    rw [← run] at records
    exact records.trans (records_info _ _)

theorem Refines.pass (refines : p.Refines schedule image) {main : MainPoint}
    (passes : p.main.Passes p.numProcesses main) (messages : List String) (globalStop : Bool)
    (timer : TimerPoint) : ({ p with
      system := p.system.info messages
      globalStop := globalStop
      timer := timer
      main := main } : Program Q).Refines schedule image where
  run := by
    rw [passes.registered_eq]
    exact refines.run
  same := by
    have same := refines.same
    change p.system.withLogger _ = image.withLogger _
    rw [same]
    rfl
  counts := refines.counts.trans (sameCounts_info _ _)
  records := refines.records.trans (records_info _ _)
  idle idle := refines.idle fun begun => idle (passes.dispatcherStarted_iff.mpr begun)
  own := refines.own

/-- **Simulation.** Each step of the program is a step of the system it refines, or none. -/
theorem Refines.step (refines : p.Refines schedule image) (supervised : p.Supervised)
    (taken : p.step act = some next) :
    ∃ more later, more.length ≤ 1 ∧ next.Refines (schedule ++ more) later := by
  have moved {q : Program Q} {now : MainPoint} (point : p.main = now)
      (system : q.system = p.system) (mode : q.mode = p.mode)
      (registered : q.main.registered q.numProcesses = now.registered p.numProcesses)
      (begun : q.main.dispatcherStarted) :
      ∃ more later, more.length ≤ 1 ∧ q.Refines (schedule ++ more) later :=
    (refines.keep q system (point ▸ registered) (Or.inl begun) mode).still
  cases step_move taken with
  | register i point more =>
      have idle := refines.idle (by rw [point]; exact id)
      subst idle
      exact (refines.register point more).still
  | startDispatcher point => exact moved point rfl rfl rfl trivial
  | start i point => exact moved point rfl rfl rfl trivial
  | stop i point => exact moved point rfl rfl rfl trivial
  | stopDispatcher point => exact moved point rfl rfl rfl trivial
  | joinDispatcher point => exact moved point rfl rfl rfl trivial
  | join i point => exact moved point rfl rfl rfl trivial
  | pass _ messages globalStop timer main _ _ passes =>
      exact (refines.pass passes messages globalStop timer).still
  | interrupt =>
      apply Refines.still
      exact refines.keep _ rfl rfl (Or.inr Iff.rfl) rfl
  | tick =>
      apply Refines.still
      exact refines.keep _ rfl rfl (Or.inr Iff.rfl) rfl
  | enter id checks =>
      exact refines.attempt (supervised.begun (by rw [checks]; decide)) (.start id) trivial _
  | leave id checks =>
      exact refines.attempt (supervised.begun (by rw [checks]; decide)) (.stop id) trivial _
  | checkDispatcher =>
      apply Refines.still
      exact refines.keep _ rfl rfl (Or.inr Iff.rfl) rfl
  | thread act system enabled stepped =>
      have own : p.mode ≠ .stressTest → act.Own := by
        intro plain
        cases act with
        | generateMessageID => exact absurd enabled.1 plain
        | enter => exact absurd enabled.1 plain
        | _ => trivial
      refine refines.extend (p.afterStep system act) act
        (refines.begun_of_step supervised enabled stepped) (afterStep_main ..) (afterStep_mode ..)
        (afterStep_numProcesses ..) own ?_
      rw [afterStep_system]
      exact stepped

/-- A run of the program is a run of the system it refines that is no longer. -/
theorem Refines.exec {last : Program Q} {acts : List ProgramAction}
    (refines : p.Refines schedule image) (supervised : p.Supervised)
    (run : exec Program.step p acts = some last) :
    ∃ more later, more.length ≤ acts.length ∧ last.Refines (schedule ++ more) later := by
  induction acts generalizing p schedule image with
  | nil =>
      obtain rfl := Option.some.inj run
      exact ⟨[], image, le_rfl, (List.append_nil schedule).symm ▸ refines⟩
  | cons act rest ih =>
      obtain ⟨next, taken, remaining⟩ := exec_cons_eq_some.mp run
      obtain ⟨first, middle, one, stepped⟩ := refines.step supervised taken
      obtain ⟨more, later, bounded, reached⟩ := ih stepped (supervised.step taken) remaining
      refine ⟨first ++ more, later, ?_, (List.append_assoc ..) ▸ reached⟩
      rw [List.length_append, List.length_cons]
      omega

theorem exists_refines {mode : Mode} {numProcesses : ℕ} {acts : List ProgramAction}
    (run : exec Program.step (.initial mode numProcesses) acts = some p) :
    ∃ schedule image, schedule.length ≤ acts.length ∧ p.Refines schedule image :=
  (Refines.initial mode numProcesses).exec (.initial mode numProcesses) run

/-- The build and its arguments do not change. -/
theorem settings_step (taken : p.step act = some next) :
    next.mode = p.mode ∧ next.numProcesses = p.numProcesses := by
  cases step_move taken with
  | thread act system => exact ⟨afterStep_mode .., afterStep_numProcesses ..⟩
  | _ => exact ⟨rfl, rfl⟩

theorem settings_run {last : Program Q} {acts : List ProgramAction}
    (run : exec Program.step p acts = some last) :
    last.mode = p.mode ∧ last.numProcesses = p.numProcesses :=
  exec_invariant
    (fun later : Program Q => later.mode = p.mode ∧ later.numProcesses = p.numProcesses)
    (fun _ _ _ same taken => ⟨(settings_step taken).1.trans same.1,
      (settings_step taken).2.trans same.2⟩) ⟨rfl, rfl⟩ run

/-- What holds of a program together with a run of the system it refines. -/
structure Tracked (p : Program Q) : Prop where
  supervised : p.Supervised
  refines : ∃ schedule image, p.Refines schedule image

theorem Tracked.step (tracked : p.Tracked) (taken : p.step act = some next) : next.Tracked := by
  obtain ⟨supervised, schedule, image, refines⟩ := tracked
  obtain ⟨more, later, -, simulated⟩ := refines.step supervised taken
  exact ⟨supervised.step taken, _, later, simulated⟩

theorem tracked_run {mode : Mode} {numProcesses : ℕ} {acts : List ProgramAction}
    (run : exec Program.step (.initial mode numProcesses) acts = some p) : p.Tracked :=
  exec_invariant Tracked (fun _ _ _ tracked taken => tracked.step taken)
    ⟨.initial mode numProcesses, [], .initial ∅, .initial mode numProcesses⟩ run

theorem Tracked.threads (tracked : p.Tracked) : p.system.Threads := by
  obtain ⟨-, schedule, image, refines⟩ := tracked
  have threads : image.Threads := exec_invariant System.Threads
    (fun _ _ _ threads taken => threads.step taken) (.initial _) refines.run
  rw [refines.same]
  exact ⟨threads.sending, threads.once⟩

/-- Inside the program too, a process is inside `sendMessage` exactly while it has a call
there. -/
theorem Tracked.sending_iff (tracked : p.Tracked) (id : ℤ) :
    (p.system.processes id).point = .sending ↔ id ∈ p.system.calls.filterMap SendCall.owner := by
  refine ⟨?_, tracked.threads.sending id⟩
  obtain ⟨-, schedule, image, refines⟩ := tracked
  rw [refines.same]
  exact System.waits_run refines.run id

end Program

/-! ## Where the threads are -/

theorem MainPoint.registered_of_begun {main : MainPoint} (begun : main.dispatcherStarted)
    (numProcesses : ℕ) : main.registered numProcesses = numProcesses := by
  cases main with
  | setup => exact begun.elim
  | register => exact begun.elim
  | _ => rfl

namespace System

/-- A process that is started, or tests its flag again, is about to send. -/
theorem attempt_start {s : System Q} {id : ℤ} (known : id ∈ s.registry) :
    attempt System.step s (.start id) = s.setProcess id
      (if (s.processes id).point = .stopped then
        { s.processes id with state := .running, point := .send }
      else s.processes id) := by
  by_cases stopped : (s.processes id).point = .stopped
  · rw [if_pos stopped, attempt, step, if_pos ⟨known, stopped⟩, Option.getD_some]
  · rw [if_neg stopped, attempt, step, if_neg fun startable => stopped startable.2,
      Option.getD_none, setProcess, Function.update_eq_self]

/-- A process that returns, or never began, is stopped. -/
theorem attempt_stop (s : System Q) (id : ℤ) :
    attempt System.step s (.stop id) = s.setProcess id
      (if (s.processes id).point = .send then
        { s.processes id with state := .idle, point := .stopped }
      else s.processes id) := by
  by_cases sends : (s.processes id).point = .send
  · rw [if_pos sends, attempt, step, if_pos sends, Option.getD_some]
  · rw [if_neg sends, attempt, step, if_neg sends, Option.getD_none, setProcess,
      Function.update_eq_self]

variable {s next : System Q} {act : Action}

/-- Only the dispatcher moves the dispatcher. -/
theorem dispatcher_step (kind : StepKind s act next) (other : act ≠ .dispatch) :
    next.dispatcher = s.dispatcher := by
  cases kind with
  | generate => rfl
  | enter => rfl
  | control => rfl
  | send => rfl
  | count => rfl
  | drop => rfl
  | queue => rfl
  | finish => rfl
  | run => rfl
  | _ => exact absurd rfl other

/-- A call from outside was there before, or has just been made. -/
theorem outside_step (kind : StepKind s act next) {call : SendCall} (inside : call ∈ next.calls)
    (outside : call.owner = none) :
    (∃ earlier ∈ s.calls, earlier.owner = none) ∨ ∃ msg, act = .enter msg := by
  have advanced {front back : List SendCall} {before : SendCall}
      (split : s.calls = front ++ before :: back) (stage : SendStage)
      (member : call ∈ front ++ { before with stage := stage } :: back) :
      ∃ earlier ∈ s.calls, earlier.owner = none := by
    rw [split]
    rcases List.mem_cons.mp (List.perm_middle.mem_iff.mp member) with rfl | elsewhere
    · exact ⟨before, List.mem_append_right _ List.mem_cons_self, outside⟩
    · exact ⟨call, List.perm_middle.mem_iff.mpr (List.mem_cons_of_mem _ elsewhere), outside⟩
  cases kind with
  | enter msg => exact Or.inr ⟨msg, rfl⟩
  | send id targetID msgPrio timestamp process =>
      rcases List.mem_append.mp inside with earlier | last
      · exact Or.inl ⟨call, earlier, outside⟩
      · rw [List.mem_singleton.mp last] at outside
        cases outside
  | count index drop front back before split => exact Or.inl (advanced split .counted inside)
  | drop index front back before split => exact Or.inl (advanced split .dropped inside)
  | queue index front back before split => exact Or.inl (advanced split .queued inside)
  | finish index drop front back before record split =>
      refine Or.inl ⟨call, ?_, outside⟩
      rw [split]
      exact (List.Sublist.append_left (List.sublist_cons_self before back) front).subset inside
  | _ => exact Or.inl ⟨call, inside, outside⟩

end System

/-- A process stands where its loop leaves it. -/
def LoopPoint.Fits : LoopPoint → ProcessPoint → Prop
  | .absent, point | .returned, point => point = .stopped
  | .checking, point => point = .stopped ∨ point = .send
  | .inside, point => point ≠ .stopped

namespace Program

variable {p next : Program Q} {act : ProgramAction}

/-- Each thread stands where its loop leaves it, and calls from outside are made by the
stress tests only. -/
structure Placed (p : Program Q) : Prop where
  process : ∀ id, (p.loop id).Fits (p.system.processes id).point
  dispatcher : p.dispatcherLoop ≠ .inside → p.system.dispatcher = .iteration
  outside : ∀ call ∈ p.system.calls, call.owner = none →
    p.mode = .stressTest ∧ p.main = .simulate 0

theorem Placed.initial (mode : Mode) (numProcesses : ℕ) :
    (initial mode numProcesses : Program Q).Placed where
  process _ := rfl
  dispatcher _ := rfl
  outside _ absent := (List.not_mem_nil absent).elim

/-- While `main` is elsewhere, every call is one of a process. -/
theorem Placed.owned (placed : p.Placed) (elsewhere : p.main ≠ .simulate 0)
    {call : SendCall} (inside : call ∈ p.system.calls) : call.owner ≠ none :=
  fun outside => elsewhere (placed.outside call inside outside).2

/-- A process of the loop is registered. -/
theorem Supervised.known (supervised : p.Supervised) {id : ℤ} (there : p.loop id ≠ .absent) :
    id ∈ p.system.registry := by
  obtain ⟨i, below, rfl, -⟩ := supervised.created id there
  rw [supervised.registry, MainPoint.registered_of_begun (supervised.begun there),
    mem_registeredIDs, processID]
  omega

theorem Placed.update (placed : p.Placed) {id : ℤ} {loop : LoopPoint} {process : Process Q}
    (fits : loop.Fits process.point) (i : ℤ) : (Function.update p.loop id loop i).Fits
      ((p.system.setProcess id process).processes i).point := by
  by_cases here : i = id
  · subst here
    rw [Function.update_self, System.setProcess_same]
    exact fits
  · rw [Function.update_of_ne here, System.setProcess_other _ _ here]
    exact placed.process i

/-- Before the dispatcher is started there is no thread. -/
theorem Supervised.absent (supervised : p.Supervised) (idle : ¬ p.main.dispatcherStarted)
    (id : ℤ) : p.loop id = .absent := by
  by_contra there
  exact idle (supervised.begun there)

/-- A step of the system moves a process within its loop. -/
theorem Placed.thread (placed : p.Placed) (tracked : p.Tracked) {act : Action}
    {system : System Q} (enabled : p.Enabled act) (stepped : p.system.step act = some system)
    (id : ℤ) : ((p.afterStep system act).loop id).Fits (system.processes id).point := by
  have fits := placed.process id
  rw [afterStep_loop]
  have moved := System.processStep stepped id
  generalize system.processes id = process at moved
  cases moved with
  | keep _ other =>
      rw [if_neg fun back => other back.1]
      exact fits
  | deliver queue same =>
      rw [same, if_neg fun back => Action.noConfusion back.1]
      exact fits
  | start same => exact (same ▸ enabled : p.Enabled (.start id)).elim
  | stop same => exact (same ▸ enabled : p.Enabled (.stop id)).elim
  | send targetID msgPrio timestamp same =>
      have inside : p.loop id = .inside := (same ▸ enabled : p.Enabled (.send id _ _ _))
      rw [if_neg fun back => ProcessPoint.noConfusion back.2, inside]
      exact ProcessPoint.noConfusion
  | finish index drop call same member owner =>
      have sending := (tracked.sending_iff id).mpr (List.mem_filterMap.mpr ⟨call, member, owner⟩)
      rw [if_neg fun back => ProcessPoint.noConfusion back.2]
      rw [sending] at fits
      cases loop : p.loop id with
      | inside => exact ProcessPoint.noConfusion
      | absent =>
          rw [loop] at fits
          cases fits
      | returned =>
          rw [loop] at fits
          cases fits
      | checking =>
          rw [loop] at fits
          rcases fits with stopped | sends
          · cases stopped
          · cases sends
  | run process records same turn =>
      have inside : p.loop id = .inside := (same ▸ enabled : p.Enabled (.run id))
      split
      · rename_i back
        exact Or.inr back.2
      · rw [inside]
        cases turn <;> exact ProcessPoint.noConfusion

theorem Placed.step (placed : p.Placed) (tracked : p.Tracked) (taken : p.step act = some next) :
    next.Placed := by
  have supervised := tracked.supervised
  have owned {now : MainPoint} (point : p.main = now) (elsewhere : now ≠ .simulate 0)
      {main : MainPoint} : ∀ call ∈ p.system.calls, call.owner = none →
        p.mode = .stressTest ∧ main = .simulate 0 :=
    fun call inside outside => absurd outside (placed.owned (point ▸ elsewhere) inside)
  cases step_move taken with
  | register i point =>
      have absent := supervised.absent (by rw [point]; exact id)
      refine ⟨fun id => ?_, placed.dispatcher, owned point MainPoint.noConfusion⟩
      change (p.loop id).Fits ((p.system.setProcess (processID i) _).processes id).point
      by_cases here : id = processID i
      · rw [here, absent, System.setProcess_same]
        rfl
      · rw [System.setProcess_other _ _ here]
        exact placed.process id
  | startDispatcher point =>
      refine ⟨placed.process, fun _ => placed.dispatcher fun inside => ?_,
        owned point MainPoint.noConfusion⟩
      have begun := supervised.dispatcher.mp (by rw [inside]; decide)
      rw [point] at begun
      exact begun
  | start i point =>
      refine ⟨fun id => ?_, placed.dispatcher, owned point MainPoint.noConfusion⟩
      dsimp only
      by_cases here : id = processID i
      · subst here
        have absent : p.loop (processID i) = .absent := by
          by_contra there
          obtain ⟨j, -, same, started⟩ := supervised.created _ there
          rw [point, processID_injective same] at started
          exact Nat.lt_irrefl j started
        have fits := placed.process (processID i)
        rw [absent] at fits
        rw [Function.update_self]
        exact Or.inl fits
      · rw [Function.update_of_ne here]
        exact placed.process id
  | stop i point =>
      exact ⟨placed.process, placed.dispatcher, owned point MainPoint.noConfusion⟩
  | stopDispatcher point =>
      exact ⟨placed.process, placed.dispatcher, owned point MainPoint.noConfusion⟩
  | joinDispatcher point =>
      exact ⟨placed.process, placed.dispatcher, owned point MainPoint.noConfusion⟩
  | join i point =>
      exact ⟨placed.process, placed.dispatcher, owned point MainPoint.noConfusion⟩
  | pass _ messages globalStop timer main _ _ passes calm =>
      refine ⟨placed.process, placed.dispatcher, fun call inside outside => ?_⟩
      rcases calm with returned | calm
      · exact absurd outside (returned call inside)
      · exact absurd (placed.outside call inside outside) calm
  | interrupt => exact ⟨placed.process, placed.dispatcher, placed.outside⟩
  | tick => exact ⟨placed.process, placed.dispatcher, placed.outside⟩
  | enter id checks =>
      have there : p.loop id ≠ .absent := by rw [checks]; decide
      rw [System.attempt_start (supervised.known there)]
      refine ⟨placed.update ?_, placed.dispatcher, placed.outside⟩
      split
      · exact ProcessPoint.noConfusion
      · rename_i going
        exact going
  | leave id checks =>
      rw [System.attempt_stop]
      refine ⟨placed.update ?_, placed.dispatcher, placed.outside⟩
      have fits := placed.process id
      rw [checks] at fits
      split
      · rfl
      · rename_i going
        exact fits.resolve_right going
  | checkDispatcher checks =>
      exact ⟨placed.process, fun _ => placed.dispatcher (by rw [checks]; decide), placed.outside⟩
  | thread act system enabled stepped =>
      refine ⟨?_, ?_, ?_⟩
      · rw [afterStep_system]
        exact placed.thread tracked enabled stepped
      · rw [afterStep_system, afterStep_dispatcherLoop]
        intro outside
        split at outside
        · rename_i back
          exact back.2
        · have other : act ≠ .dispatch := by
            rintro rfl
            exact outside enabled
          rw [System.dispatcher_step (System.step_kind stepped) other]
          exact placed.dispatcher outside
      · rw [afterStep_system, afterStep_mode, afterStep_main]
        intro call inside outside
        rcases System.outside_step (System.step_kind stepped) inside outside with
          ⟨earlier, member, unowned⟩ | ⟨msg, rfl⟩
        · exact placed.outside earlier member unowned
        · exact enabled

theorem placed_run {mode : Mode} {numProcesses : ℕ} {acts : List ProgramAction}
    (run : exec Program.step (.initial mode numProcesses) acts = some p) :
    p.Tracked ∧ p.Placed :=
  exec_invariant (fun p : Program Q => p.Tracked ∧ p.Placed)
    (fun _ _ _ both taken => ⟨both.1.step taken, both.2.step both.1 taken⟩)
    ⟨tracked_run (exec_nil (initial mode numProcesses)), .initial mode numProcesses⟩ run

end Program

end MessagePassing
