import MessagePassing.Scheduler.Threads
import MessagePassing.System.Output
import MessagePassing.System.Supervision

/-! # The dispatcher statement by statement

A step of `System` ages all pending messages or scans for the next one at once. Here the
dispatcher does so in the statements of `Scheduler.statement`, behind `schedulerMutex`, and any
other thread takes its steps between them, except that none adds a message meanwhile. Each of its
runs is a run of `System`, up to the places of the boost records in the log
(`dispatcherAtomic`).
-/

namespace MessagePassing

open Monitor Transition

variable {Q : PriorityQueue (Message Ticket) MessageComparator}

/-- The system, and where the dispatcher stands behind `schedulerMutex`. -/
structure Stepwise (Q : PriorityQueue (Message Ticket) MessageComparator) where
  system : System Q
  inside : Option (Outcome (SchedulerPoint Ticket) (SchedulerResult Ticket))

/-- The record of a boost. -/
def boostRecord (line : String × Ticket) : LogRecord where
  event := .schedulerEvent
  details := line.1
  ticket := some line.2

namespace System

/-- The same system with another scheduler. -/
def withScheduler (s : System Q) (scheduler : Scheduler Ticket) : System Q :=
  { s with scheduler := scheduler }

/-- A step that adds a message to the scheduler. -/
def adds (s : System Q) : Action → Bool
  | .proceed index false => decide ((s.calls[index]?.map SendCall.stage) = some .counted)
  | _ => false

end System

namespace Stepwise

def initial (registry : Finset ℤ) : Stepwise Q where
  system := .initial registry
  inside := none

/-- The dispatcher takes the mutex, does one statement, or unlocks the mutex and goes on with what
the function returned; elsewhere its steps are those of the system. -/
def dispatch (s : Stepwise Q) : Option (Stepwise Q) :=
  match s.inside with
  | none =>
      match s.system.dispatcher with
      | .iteration =>
          if s.system.agingTimer + 1 ≥ Dispatch.agingPeriod then
            some { s with inside := some (.proceed (Scheduler.code.start .applyAging)) }
          else some { s with system := s.system.dispatchLoop }
      | .pick => some { s with inside := some (.proceed (Scheduler.code.start .getNextMessage)) }
      | _ => some { s with system := s.system.dispatchLoop }
  | some (.proceed point) =>
      let (scheduler, lines, outcome) := s.system.scheduler.statement point
      some
        { system := { s.system with
            scheduler := scheduler
            logger := s.system.logger.logAll (lines.map boostRecord) }
          inside := some outcome }
  | some (.finish .aged) => some
      { system := { s.system with agingTimer := 0, dispatcher := .pick }, inside := none }
  | some (.finish (.next (some out))) => some
      { system := { s.system with dispatcher := .deliver out }, inside := none }
  | some (.finish (.next none)) => some
      { system := { s.system with dispatcher := .iteration }, inside := none }
  | some _ => none -- never taken: the dispatcher calls the two functions above only

/-- One step of a thread; to add a message a thread has to wait for the mutex. -/
def step (s : Stepwise Q) : Action → Option (Stepwise Q)
  | .dispatch => s.dispatch
  | act =>
      if s.inside.isSome && s.system.adds act then none
      else (s.system.step act).map fun next => { s with system := next }

end Stepwise

namespace System

/-- Nothing but the dispatcher and a step that adds a message uses the scheduler. -/
theorem step_withScheduler (s : System Q) {act : Action} (scheduler : Scheduler Ticket)
    (other : act ≠ .dispatch) (keeps : s.adds act = false) :
    (s.withScheduler scheduler).step act =
      (s.step act).map fun next => next.withScheduler scheduler := by
  cases act with
  | dispatch => exact absurd rfl other
  | generateMessageID => rfl
  | enter msg => rfl
  | start id =>
      by_cases startable : id ∈ s.registry ∧ (s.processes id).point = .stopped
      · rw [step, step, if_pos startable]
        exact if_pos startable
      · rw [step, step, if_neg startable]
        exact if_neg startable
  | stop id =>
      by_cases sends : (s.processes id).point = .send
      · rw [step, step, if_pos sends]
        exact if_pos sends
      · rw [step, step, if_neg sends]
        exact if_neg sends
  | send id targetID msgPrio timestamp =>
      by_cases able : (s.processes id).point = .send ∧ 1 ≤ targetID ∧
          targetID ≤ s.registry.card ∧ targetID ≠ id
      · rw [step, step, if_pos able]
        exact if_pos able
      · rw [step, step, if_neg able]
        exact if_neg able
  | proceed index drop =>
      unfold step sendMessage withScheduler
      dsimp only
      cases found : s.calls[index]? with
      | none => rfl
      | some call =>
          obtain ⟨msg, stage, owner⟩ := call
          cases stage with
          | counted =>
              cases drop with
              | true => rfl
              | false =>
                  rw [adds, found] at keeps
                  cases keeps
          | _ => rfl
  | run id =>
      rw [step, step]
      change (s.processes id).run.map _ = _
      rw [Option.map_map]
      rfl

/-- A step that does not use the scheduler leaves it and writes what it would with another. -/
theorem step_keeps {s next : System Q} {act : Action} (other : act ≠ .dispatch)
    (keeps : s.adds act = false) (taken : s.step act = some next) (scheduler : Scheduler Ticket) :
    next.scheduler = s.scheduler ∧ (s.withScheduler scheduler).written act = s.written act := by
  constructor
  · have same : s.step act = (s.step act).map fun next => next.withScheduler s.scheduler :=
      s.step_withScheduler s.scheduler other keeps
    rw [taken, Option.map_some] at same
    rw [Option.some.inj same]
    rfl
  · have blind : (s.withLogger .initial).adds act = false := by
      rw [← keeps]
      cases act <;> rfl
    have same := (s.withLogger .initial).step_withScheduler scheduler other blind
    change ((((s.withLogger .initial).withScheduler scheduler).step act).map _).getD [] = _
    rw [same, Option.map_map]
    rfl

variable {s : System Q}

theorem dispatchLoop_aging (point : s.dispatcher = .iteration)
    (due : Dispatch.agingPeriod ≤ s.agingTimer + 1) : s.dispatchLoop =
      { s with
        scheduler := s.scheduler.applyAging
        logger := s.logger.logAll (agingRecords s.scheduler)
        agingTimer := 0
        dispatcher := .pick } := by
  rw [dispatchLoop, point]
  exact if_pos due

theorem dispatchLoop_picked {msg : Message Ticket} {rest : Scheduler Ticket}
    (point : s.dispatcher = .pick) (picked : s.scheduler.getNextMessage = some (msg, rest)) :
    s.dispatchLoop = { s with scheduler := rest, dispatcher := .deliver msg } := by
  simp only [dispatchLoop, point, picked]

theorem dispatchLoop_idle (point : s.dispatcher = .pick)
    (nothing : s.scheduler.getNextMessage = none) :
    s.dispatchLoop = { s with dispatcher := .iteration } := by
  simp only [dispatchLoop, point, nothing]

end System

/-! ## The system it refines -/

/-- Where the dispatcher calls the function. -/
def SchedulerFunction.Due (s : System Q) : SchedulerFunction Ticket → Prop
  | .applyAging => s.dispatcher = .iteration ∧ Dispatch.agingPeriod ≤ s.agingTimer + 1
  | .getNextMessage => s.dispatcher = .pick
  | _ => False

/-- Only the dispatcher moves itself and its timer. -/
theorem SchedulerFunction.Due.step {s next : System Q} {act : Action}
    {function : SchedulerFunction Ticket} (due : function.Due s)
    (kind : System.StepKind s act next) (other : act ≠ .dispatch) : function.Due next := by
  have timer : next.agingTimer = s.agingTimer := by
    cases kind with
    | generate | enter | control | send | count | drop | queue | finish | run => rfl
    | _ => exact absurd rfl other
  have point := System.dispatcher_step kind other
  cases function with
  | applyAging => exact ⟨point.trans due.1, timer ▸ due.2⟩
  | getNextMessage => exact point.trans due
  | addMessage | pendingCount => exact due.elim

/-- Not a record of a boost. -/
def LogRecord.elsewhere (record : LogRecord) : Bool := decide (record.event ≠ .schedulerEvent)

theorem filter_boosts (lines : List (String × Ticket)) :
    (lines.map boostRecord).filter LogRecord.elsewhere = [] := by
  rw [List.filter_eq_nil_iff]
  rintro record member
  obtain ⟨line, -, rfl⟩ := List.mem_map.mp member
  exact Bool.false_ne_true

/-- What an aging round writes to the log, line by line. -/
theorem agingRecords_eq (scheduler : Scheduler Ticket) : System.agingRecords scheduler =
    (scheduler.pendingMessages.filterMap Message.agingLine).map boostRecord := by
  rw [System.agingRecords, List.map_filterMap]
  simp only [Message.agingLine, Option.map_map]
  rfl

namespace Stepwise

/-- The scheduler and the boost records, behind the mutex as far as the function has come. -/
inductive Stands (r : Stepwise Q) (s : System Q) : Prop
  | outside : r.inside = none → r.system.scheduler = s.scheduler →
      r.system.logger.records.Perm s.logger.records → Stands r s
  | inside (function : SchedulerFunction Ticket)
      {outcome : Outcome (SchedulerPoint Ticket) (SchedulerResult Ticket)} {steps : ℕ}
      {past rest : List (String × Ticket)} :
      r.inside = some outcome → function.Due s → steps ≤ s.scheduler.statements →
      Scheduler.code.Ends steps r.system.scheduler outcome (s.scheduler.perform function).1 rest
        (s.scheduler.perform function).2.2 →
      (s.scheduler.perform function).2.1 = past ++ rest →
      r.system.logger.records.Perm (s.logger.records ++ past.map boostRecord) → Stands r s

/-- All else is the same but for the log, where the other records are in the same order. -/
structure Means (r : Stepwise Q) (s : System Q) : Prop where
  same : s = (r.system.withScheduler s.scheduler).withLogger s.logger
  others : r.system.logger.records.filter LogRecord.elsewhere =
    s.logger.records.filter LogRecord.elsewhere
  stands : r.Stands s

variable {r next : Stepwise Q} {s : System Q} {act : Action}

theorem Means.initial (registry : Finset ℤ) :
    (initial registry : Stepwise Q).Means (.initial registry) where
  same := rfl
  others := rfl
  stands := .outside rfl rfl (List.Perm.refl _)

/-- A step of the system taken while the dispatcher is not behind the mutex. -/
theorem Means.outside_step {later : System Q} (means : r.Means s) (free : r.inside = none)
    (taken : r.system.step act = some later) :
    ∃ t, s.step act = some t ∧ Means { r with system := later } t := by
  obtain ⟨same, others, stands⟩ := means
  cases stands with
  | inside _ locked => cases free.symm.trans locked
  | outside _ scheduler perm =>
      have plain : s = r.system.withLogger s.logger := by
        rw [← scheduler] at same
        exact same
      have logger := System.logger_of_step taken
      have moved : s.step act = some (later.withLogger
          (s.logger.logAll (r.system.written act))) := by
        rw [congrArg (fun s => System.step s act) plain, System.step_withLogger, taken]
        rfl
      refine ⟨_, moved, rfl, ?_, .outside free rfl ?_⟩
      · change later.logger.records.filter _ = (s.logger.logAll _).records.filter _
        rw [logger, Logger.logAll_records, Logger.logAll_records, List.filter_append,
          List.filter_append, others]
      · change later.logger.records.Perm (s.logger.logAll _).records
        rw [logger, Logger.logAll_records, Logger.logAll_records]
        exact perm.append_right _

/-- A step of another thread taken while the dispatcher is behind the mutex. -/
theorem Means.inside_step {later : System Q} (means : r.Means s)
    {outcome : Outcome (SchedulerPoint Ticket) (SchedulerResult Ticket)}
    (locked : r.inside = some outcome) (other : act ≠ .dispatch) (keeps : r.system.adds act = false)
    (taken : r.system.step act = some later) :
    ∃ t, s.step act = some t ∧ Means { r with system := later } t := by
  obtain ⟨same, others, stands⟩ := means
  obtain ⟨scheduler, written⟩ := System.step_keeps other keeps taken s.scheduler
  have logger := System.logger_of_step taken
  have moved : s.step act = some ((later.withScheduler s.scheduler).withLogger
      (s.logger.logAll (r.system.written act))) := by
    rw [congrArg (fun s => System.step s act) same, System.step_withLogger,
      System.step_withScheduler _ _ other keeps, taken, written]
    rfl
  cases stands with
  | outside free => cases free.symm.trans locked
  | inside function stood due within ends split perm =>
      refine ⟨_, moved, rfl, ?_, .inside function stood (due.step (System.step_kind moved) other)
        within ?_ split ?_⟩
      · change later.logger.records.filter _ = (s.logger.logAll _).records.filter _
        rw [logger, Logger.logAll_records, Logger.logAll_records, List.filter_append,
          List.filter_append, others]
      · change Scheduler.code.Ends _ later.scheduler _ _ _ _
        rw [scheduler]
        exact ends
      · change later.logger.records.Perm ((s.logger.logAll _).records ++ _)
        rw [logger, Logger.logAll_records, Logger.logAll_records]
        refine (perm.append_right _).trans ?_
        rw [List.append_assoc, List.append_assoc]
        exact List.perm_append_comm.append_left _

/-- The dispatcher takes the mutex to run a function. -/
theorem Means.enter (means : r.Means s) (free : r.inside = none)
    (function : SchedulerFunction Ticket) (due : function.Due s) :
    Means { r with inside := some (.proceed (Scheduler.code.start function)) } s := by
  obtain ⟨same, others, stands⟩ := means
  cases stands with
  | inside _ locked => cases free.symm.trans locked
  | outside _ scheduler perm =>
      refine ⟨same, others, .inside function rfl due le_rfl ?_ (List.nil_append _).symm ?_⟩
      · change Scheduler.code.Ends _ r.system.scheduler _ _ _ _
        rw [scheduler]
        exact Scheduler.implements.ends s.scheduler function
      · rw [List.map_nil, List.append_nil]
        exact perm

/-- A statement behind the mutex. -/
theorem Means.statement (means : r.Means s) {point : SchedulerPoint Ticket}
    (locked : r.inside = some (.proceed point)) {scheduler : Scheduler Ticket}
    {lines : List (String × Ticket)}
    {outcome : Outcome (SchedulerPoint Ticket) (SchedulerResult Ticket)}
    (does : r.system.scheduler.statement point = (scheduler, lines, outcome)) :
    Means
      { system := { r.system with
          scheduler := scheduler
          logger := r.system.logger.logAll (lines.map boostRecord) }
        inside := some outcome } s := by
  obtain ⟨same, others, stands⟩ := means
  cases stands with
  | outside free => cases free.symm.trans locked
  | inside function stood due within ends split perm =>
      obtain rfl := Option.some.inj (locked.symm.trans stood)
      cases ends with
      | proceed taken ends =>
          obtain ⟨rfl, rfl, rfl⟩ := does.symm.trans taken
          refine ⟨same, ?_, .inside function rfl due ((Nat.le_succ _).trans within) ends
            (split.trans (List.append_assoc ..).symm) ?_⟩
          · change (r.system.logger.logAll _).records.filter _ = _
            rw [Logger.logAll_records, List.filter_append, others, filter_boosts, List.append_nil]
          · change (r.system.logger.logAll _).records.Perm _
            rw [Logger.logAll_records, List.map_append, ← List.append_assoc]
            exact perm.append_right _

/-- The dispatcher unlocks the mutex: in the system all of the function happens now. -/
theorem Means.leave (means : r.Means s) {result : SchedulerResult Ticket}
    (locked : r.inside = some (.finish result)) (taken : r.dispatch = some next) :
    next.Means s.dispatchLoop := by
  obtain ⟨same, others, stands⟩ := means
  obtain ⟨system, inside⟩ := r
  obtain ⟨scheduler, logger, rfl⟩ : ∃ scheduler logger,
    s = (system.withScheduler scheduler).withLogger logger := ⟨_, _, same⟩
  obtain rfl : inside = some (.finish result) := locked
  cases stands with
  | outside free => cases free
  | @inside function _ _ past _ stood due within ends split perm =>
      obtain rfl := Option.some.inj stood
      obtain ⟨current, rfl, value⟩ := ends.of_finish
      rw [List.append_nil] at split
      cases function with
      | addMessage | pendingCount => exact due.elim
      | applyAging =>
          obtain rfl := Option.some.inj value
          obtain rfl := Option.some.inj taken
          have lines : scheduler.pendingMessages.filterMap Message.agingLine = past := split
          rw [System.dispatchLoop_aging due.1 due.2]
          refine ⟨rfl, ?_, .outside rfl current.symm ?_⟩
          · change _ = (logger.logAll (System.agingRecords scheduler)).records.filter _
            rw [Logger.logAll_records, agingRecords_eq, List.filter_append, filter_boosts,
              List.append_nil]
            exact others
          · change List.Perm _ (logger.logAll (System.agingRecords scheduler)).records
            rw [Logger.logAll_records, agingRecords_eq, lines]
            exact perm
      | getNextMessage =>
          change (scheduler.perform .getNextMessage).1 = _ at current
          change (scheduler.perform .getNextMessage).2.1 = _ at split
          change (scheduler.perform .getNextMessage).2.2 = _ at value
          have silent : past = [] := by
            rw [← split, Scheduler.perform]
            cases scheduler.getNextMessage <;> rfl
          rw [silent, List.map_nil, List.append_nil] at perm
          cases picked : scheduler.getNextMessage with
          | none =>
              rw [Scheduler.perform, picked] at current value
              obtain rfl := Option.some.inj value
              obtain rfl := Option.some.inj taken
              rw [System.dispatchLoop_idle due picked]
              exact ⟨rfl, others, .outside rfl current.symm perm⟩
          | some pick =>
              rw [Scheduler.perform, picked] at current value
              obtain rfl := Option.some.inj value
              obtain rfl := Option.some.inj taken
              rw [System.dispatchLoop_picked due picked]
              exact ⟨rfl, others, .outside rfl current.symm perm⟩

theorem step_other (other : act ≠ .dispatch) : r.step act =
    if r.inside.isSome && r.system.adds act then none
    else (r.system.step act).map fun next => { r with system := next } := by
  cases act with
  | dispatch => exact absurd rfl other
  | _ => rfl

/-- **One step.** The system takes the same step, or all of a function when the dispatcher
unlocks the mutex, or none. -/
theorem Means.step (means : r.Means s) (taken : r.step act = some next) :
    next.Means s ∨ ∃ t, s.step act = some t ∧ next.Means t := by
  by_cases other : act ≠ .dispatch
  · rw [step_other other] at taken
    obtain ⟨keeps, taken⟩ := Option.ite_none_left_eq_some.mp taken
    obtain ⟨later, moved, rfl⟩ := Option.map_eq_some_iff.mp taken
    cases locked : r.inside with
    | none => exact locked ▸ Or.inr (means.outside_step locked moved)
    | some outcome =>
        rw [locked] at keeps
        exact locked ▸
          Or.inr (means.inside_step locked other (Bool.eq_false_of_not_eq_true keeps) moved)
  · obtain rfl := not_not.mp other
    change r.dispatch = some next at taken
    cases locked : r.inside with
    | none =>
        have through : ∃ t, s.step .dispatch = some t ∧
            Means { r with system := r.system.dispatchLoop } t :=
          means.outside_step locked rfl
        have dispatcher : s.dispatcher = r.system.dispatcher := by
          rw [means.same]
          rfl
        have timer : s.agingTimer = r.system.agingTimer := by
          rw [means.same]
          rfl
        cases point : r.system.dispatcher with
        | iteration =>
            simp only [dispatch, locked, point] at taken
            by_cases due : r.system.agingTimer + 1 ≥ Dispatch.agingPeriod
            · rw [if_pos due] at taken
              obtain rfl := Option.some.inj taken
              exact Or.inl
                (means.enter locked .applyAging ⟨dispatcher.trans point, timer.symm ▸ due⟩)
            · rw [if_neg due] at taken
              obtain rfl := Option.some.inj taken
              exact locked ▸ Or.inr through
        | pick =>
            simp only [dispatch, locked, point] at taken
            obtain rfl := Option.some.inj taken
            exact Or.inl (means.enter locked .getNextMessage (dispatcher.trans point))
        | deliver | countDelivered | logDelivered | logFull | logUnknown =>
            simp only [dispatch, locked, point] at taken
            obtain rfl := Option.some.inj taken
            exact locked ▸ Or.inr through
    | some outcome =>
        cases outcome with
        | block =>
            rw [dispatch, locked] at taken
            cases taken
        | proceed point =>
            simp only [dispatch, locked] at taken
            obtain rfl := Option.some.inj taken
            exact Or.inl (means.statement locked rfl)
        | finish result => exact Or.inr ⟨_, rfl, means.leave locked taken⟩

/-- Every run is one of the system. -/
theorem means_run {registry : Finset ℤ} {acts : List Action}
    (run : exec step (initial registry) acts = some r) : ∃ coarse s,
      exec System.step (.initial registry) coarse = some s ∧ coarse.length ≤ acts.length ∧
      r.Means s :=
  exec_refinement Means (fun _ act _ _ means taken => (means.step taken).imp_right
    fun ⟨t, moved, follows⟩ => ⟨act, t, moved, follows⟩) (.initial registry) run

/-- Behind the mutex the dispatcher gets out by its own steps. -/
theorem exists_leave {steps : ℕ} {scheduler last : Scheduler Ticket}
    {outcome : Outcome (SchedulerPoint Ticket) (SchedulerResult Ticket)}
    {written : List (String × Ticket)} {value : Option (SchedulerResult Ticket)}
    (ends : Scheduler.code.Ends steps scheduler outcome last written value)
    (returns : value = some .aged ∨ ∃ out, value = some (.next out))
    (current : r.system.scheduler = scheduler) (locked : r.inside = some outcome) :
    ∃ few ≤ steps + 1, ∃ next, exec step r (List.replicate few .dispatch) = some next ∧
      next.inside = none := by
  induction ends generalizing r with
  | block => rcases returns with absurd | ⟨out, absurd⟩ <;> cases absurd
  | finish steps scheduler result =>
      have left : ∃ next, r.dispatch = some next ∧ next.inside = none := by
        rcases returns with value | ⟨out, value⟩
        · obtain rfl := Option.some.inj value
          simp only [dispatch, locked, Option.some.injEq, exists_eq_left']
        · obtain rfl := Option.some.inj value
          cases out <;> simp only [dispatch, locked, Option.some.injEq, exists_eq_left']
      obtain ⟨next, taken, free⟩ := left
      exact ⟨1, Nat.le_add_left 1 steps, next, exec_cons_eq_some.mpr ⟨next, taken, rfl⟩, free⟩
  | @proceed steps _ grown _ _ outcome _ _ _ does _ ih =>
      have advanced : ∃ next, r.dispatch = some next ∧ next.system.scheduler = grown ∧
          next.inside = some outcome := by
        have statement : r.system.scheduler.statement _ = _ := current ▸ does
        simp only [dispatch, locked, statement, Option.some.injEq, exists_eq_left', and_self]
      obtain ⟨next, taken, reached, further⟩ := advanced
      obtain ⟨few, within, last, run, free⟩ := ih returns reached further
      exact ⟨few + 1, Nat.succ_le_succ within, last,
        exec_cons_eq_some.mpr ⟨next, taken, run⟩, free⟩

end Stepwise

/-- **The dispatcher's sections are atomic.** Let the dispatcher run `applyAging` and
`getNextMessage` statement by statement, and all other threads between its statements, except that
they wait to add a message. Every run is, in no more steps, one of the system in which it does
all of them at once: everything is the same but for the scheduler behind the mutex and the places
of the boost records in the log, and once it has unlocked the mutex the scheduler is the same too
and the records are the same ones; and it unlocks the mutex after at most five statements for each
message pending then and eleven more, and for each pending when it took the mutex and six more. -/
theorem dispatcherAtomic {registry : Finset ℤ} {acts : List Action} {r : Stepwise Q}
    (run : exec Stepwise.step (.initial registry) acts = some r) : ∃ coarse s,
      exec System.step (.initial registry) coarse = some s ∧ coarse.length ≤ acts.length ∧
      (r.system.withScheduler s.scheduler).withoutLog = s.withoutLog ∧
      r.system.logger.records.filter LogRecord.elsewhere =
        s.logger.records.filter LogRecord.elsewhere ∧
      (r.inside = none → r.system.scheduler = s.scheduler ∧
        r.system.logger.records.Perm s.logger.records) ∧
      (r.inside ≠ none → ∃ few ≤ 5 * (r.system.scheduler.pendingCount + 1) + 6,
        few ≤ 5 * s.scheduler.pendingCount + 6 ∧ ∃ next,
          exec Stepwise.step r (List.replicate few .dispatch) = some next ∧
          next.inside = none) := by
  obtain ⟨coarse, s, reached, shorter, same, others, stands⟩ := Stepwise.means_run run
  refine ⟨coarse, s, reached, shorter, (congrArg System.withoutLog same).symm, others, ?_, ?_⟩
  · intro free
    cases stands with
    | outside _ scheduler perm => exact ⟨scheduler, perm⟩
    | inside _ locked => cases free.symm.trans locked
  · intro held
    cases stands with
    | outside free => exact absurd free held
    | inside function locked due within ends =>
        have returns : (s.scheduler.perform function).2.2 = some .aged ∨
            ∃ out, (s.scheduler.perform function).2.2 = some (.next out) := by
          cases function with
          | addMessage | pendingCount => exact due.elim
          | applyAging => exact Or.inl rfl
          | getNextMessage =>
              right
              rw [Scheduler.perform]
              cases s.scheduler.getNextMessage with
              | none => exact ⟨none, rfl⟩
              | some pick => exact ⟨some pick.1, rfl⟩
        obtain ⟨few, fewer, next, run, free⟩ := Stepwise.exists_leave ends returns rfl locked
        have shorter := Scheduler.pendingCount_before ends
        have most := fewer.trans (Nat.succ_le_succ within)
        rw [Scheduler.statements] at most
        exact ⟨few, by omega, most, next, run, free⟩

/-- A sender counts its message and then waits while the dispatcher scans. -/
theorem dispatcherAtomic_duringScan :
    let acts := [.enter (.create 1 2 "" .low 1 ""), .proceed 0 false, .proceed 0 false,
      .proceed 0 false, .dispatch, .dispatch, .enter (.create 2 1 "" .high 2 ""), .dispatch,
      .proceed 0 false, .dispatch]
    ∃ r : Stepwise (PriorityQueue.scanned MessageComparator),
      exec Stepwise.step (.initial {1, 2}) acts = some r ∧ r.inside ≠ none ∧
      r.step (.proceed 0 false) = none ∧ ∃ coarse s,
        exec System.step (.initial {1, 2}) coarse = some s ∧
        (r.system.withScheduler s.scheduler).withoutLog = s.withoutLog := by
  intro acts
  have reached : (exec (Stepwise.step (Q := PriorityQueue.scanned MessageComparator))
      (.initial {1, 2}) acts).any (fun r =>
        r.inside.isSome && (r.step (.proceed 0 false)).isNone) = true := by
    decide +kernel
  obtain ⟨r, run, facts⟩ := (Option.any_eq_true _ _).mp reached
  obtain ⟨inside, waits⟩ := (Bool.and_eq_true _ _).mp facts
  obtain ⟨coarse, s, reached, -, same, -⟩ := dispatcherAtomic run
  exact ⟨r, run, Option.isSome_iff_ne_none.mp inside, Option.isNone_iff_eq_none.mp waits, coarse, s,
    reached, same⟩

end MessagePassing
