import MessagePassing.Foundation.Monitor
import MessagePassing.Scheduler.History

/-! # The scheduler among threads

The member functions of `Scheduler` statement by statement, each between taking and releasing
`schedulerMutex`: the scan with its two indices, the erasure, and the two loops that change the
messages in place; `getAgingCount`, which reads its counter without the mutex, is left out. Alone
each does what its function in `Scheduler.Basic` says (`Scheduler.implements`), so the calls of
any threads are a run of the scheduler as `Scheduler.History` has it (`schedulerThreadSafe`).
-/

namespace MessagePassing

open Monitor Transition

variable {ι : Type}

/-- The member functions with their arguments. -/
inductive SchedulerFunction (ι : Type)
  | addMessage (msg : Message ι)
  | getNextMessage
  | applyAging
  | pendingCount
  deriving DecidableEq

/-- What they return, one of them also through its parameter. -/
inductive SchedulerResult (ι : Type)
  | added
  | next (out : Option (Message ι))
  | aged
  | count (pending : ℕ)
  deriving DecidableEq

/-- Their statements, with the local variables in use. -/
inductive SchedulerPoint (ι : Type)
  | pushBack (msg : Message ι)
  | checkEmpty
  | compare (i bestIdx : ℕ)
  | copyOut (bestIdx : ℕ)
  | erase (bestIdx : ℕ) (out : Message ι)
  | increment (i : ℕ) (out : Message ι)
  | checkAging (i : ℕ)
  | raise (i : ℕ) (level : Priority)
  | countBoost (i : ℕ) (level : Priority)
  | logBoost (i : ℕ) (level : Priority)
  | resetCounter (i : ℕ)
  | size

/-- The log text of a boost to a level. -/
def Message.boostNotice (msg : Message ι) (level : Priority) : String :=
  "Aging: MSG#" ++ ToString.toString msg.messageID ++
    (if level = .medium then " boosted LOW -> MEDIUM (waited "
      else " boosted MEDIUM -> HIGH (waited ") ++ ToString.toString msg.agingCounter ++ " turns)"

/-- The log line of a boost and whose it is, if aging boosts the message. -/
def Message.agingLine (msg : Message ι) : Option (String × ι) :=
  msg.agingNotice.map fun text => (text, msg.ticket)

namespace Scheduler

/-- One statement: the scheduler after it, what it logs, and how the function goes on. -/
def statement (scheduler : Scheduler ι) : SchedulerPoint ι →
    Scheduler ι × List (String × ι) × Outcome (SchedulerPoint ι) (SchedulerResult ι)
  | .pushBack msg =>
      ({ scheduler with pendingMessages := scheduler.pendingMessages ++ [msg] }, [],
        .finish .added)
  | .checkEmpty =>
      if scheduler.pendingMessages.isEmpty then (scheduler, [], .finish (.next none))
      else (scheduler, [], .proceed (.compare 1 0))
  | .compare i bestIdx =>
      match scheduler.pendingMessages[i]? with
      | some curr =>
          match scheduler.pendingMessages[bestIdx]? with
          | some best =>
              if curr.score > best.score then (scheduler, [], .proceed (.compare (i + 1) i))
              else (scheduler, [], .proceed (.compare (i + 1) bestIdx))
          | none => (scheduler, [], .block) -- never taken: bestIdx is an index passed before
      | none => (scheduler, [], .proceed (.copyOut bestIdx))
  | .copyOut bestIdx =>
      match scheduler.pendingMessages[bestIdx]? with
      | some out => (scheduler, [], .proceed (.erase bestIdx out))
      | none => (scheduler, [], .block) -- never taken
  | .erase bestIdx out =>
      ({ scheduler with pendingMessages := scheduler.pendingMessages.eraseIdx bestIdx }, [],
        .proceed (.increment 0 out))
  | .increment i out =>
      match scheduler.pendingMessages[i]? with
      | some _ =>
          ({ scheduler with pendingMessages := scheduler.pendingMessages.modify i fun m =>
              { m with agingCounter := m.agingCounter + 1 } }, [],
            .proceed (.increment (i + 1) out))
      | none => (scheduler, [], .finish (.next (some out)))
  | .checkAging i =>
      match scheduler.pendingMessages[i]? with
      | some msg =>
          if msg.agingCounter ≥ Config.agingThreshold then
            match msg.priority with
            | .low => (scheduler, [], .proceed (.raise i .medium))
            | .medium => (scheduler, [], .proceed (.raise i .high))
            | .high => (scheduler, [], .proceed (.checkAging (i + 1)))
          else (scheduler, [], .proceed (.checkAging (i + 1)))
      | none => (scheduler, [], .finish .aged)
  | .raise i level =>
      ({ scheduler with pendingMessages := scheduler.pendingMessages.modify i fun msg =>
          { msg with priority := level } }, [], .proceed (.countBoost i level))
  | .countBoost i level =>
      ({ scheduler with agingEventCount := scheduler.agingEventCount + 1 }, [],
        .proceed (.logBoost i level))
  | .logBoost i level =>
      (scheduler, (scheduler.pendingMessages[i]?.map fun msg =>
        (msg.boostNotice level, msg.ticket)).toList,
        .proceed (.resetCounter i))
  | .resetCounter i =>
      ({ scheduler with pendingMessages := scheduler.pendingMessages.modify i fun msg =>
          { msg with agingCounter := 0 } }, [], .proceed (.checkAging (i + 1)))
  | .size => (scheduler, [], .finish (.count scheduler.pendingMessages.length))

/-- The first statement of each function, and what follows. -/
def code : Code (Scheduler ι) (SchedulerFunction ι) (SchedulerPoint ι) (SchedulerResult ι)
    (String × ι) where
  start
    | .addMessage msg => .pushBack msg
    | .getNextMessage => .checkEmpty
    | .applyAging => .checkAging 0
    | .pendingCount => .size
  step := statement

/-- What each function does at once. -/
def perform (scheduler : Scheduler ι) : SchedulerFunction ι →
    Scheduler ι × List (String × ι) × Option (SchedulerResult ι)
  | .addMessage msg => (scheduler.addMessage msg, [], some .added)
  | .getNextMessage =>
      match scheduler.getNextMessage with
      | some (out, next) => (next, [], some (.next (some out)))
      | none => (scheduler, [], some (.next none))
  | .applyAging =>
      (scheduler.applyAging, scheduler.pendingMessages.filterMap Message.agingLine, some .aged)
  | .pendingCount => (scheduler, [], some (.count scheduler.pendingCount))

/-- The statements of the longest function: five for each message boosted. -/
def statements (scheduler : Scheduler ι) : ℕ := 5 * scheduler.pendingCount + 5

/-! ## Loops over the pending messages -/

section Loops

variable {α : Type} (front rest : List α) (a : α)

theorem getElem?_middle : (front ++ a :: rest)[front.length]? = some a := by
  rw [List.getElem?_append_right le_rfl, Nat.sub_self]
  rfl

theorem getElem?_past : (front ++ [])[front.length]? = none := by
  rw [List.append_nil]
  exact List.getElem?_eq_none le_rfl

theorem modify_middle (change : α → α) :
    (front ++ a :: rest).modify front.length change = front ++ change a :: rest := by
  induction front with
  | nil => rfl
  | cons first front ih => exact congrArg (List.cons first) ih

end Loops

variable {front rest : List (Message ι)} {count : ℕ}

/-- What `findHighestPriorityIndex` finds from where it stands, and then goes on with. -/
theorem compare_ends {pending : List (Message ι)} {best : Message ι} {i bestIdx steps : ℕ}
    {last : Scheduler ι} {written : List (String × ι)} {result : Option (SchedulerResult ι)}
    (ahead : pending.drop i = rest) (found : pending[bestIdx]? = some best)
    (ends : code.Ends steps ⟨pending, count⟩ (.proceed (.copyOut
      (Selection.bestIndexFrom (fun best curr => decide (best.score < curr.score)) best bestIdx i
        rest))) last written result) :
    code.Ends (steps + (rest.length + 1)) ⟨pending, count⟩ (.proceed (.compare i bestIdx)) last
      written result := by
  induction rest generalizing i best bestIdx with
  | nil =>
      have none : pending[i]? = none := List.getElem?_eq_none (List.drop_eq_nil_iff.mp ahead)
      have left : statement ⟨pending, count⟩ (.compare i bestIdx) =
          (⟨pending, count⟩, [], .proceed (.copyOut bestIdx)) := by
        rw [statement, none]
      exact .silent left ends
  | cons curr rest ih =>
      have current : pending[i]? = some curr := by
        rw [← Nat.add_zero i, ← List.getElem?_drop, ahead]
        rfl
      have further : pending.drop (i + 1) = rest := by
        rw [← List.tail_drop, ahead]
        rfl
      rw [Selection.bestIndexFrom] at ends
      by_cases better : best.score < curr.score
      · have turned : statement ⟨pending, count⟩ (.compare i bestIdx) =
            (⟨pending, count⟩, [], .proceed (.compare (i + 1) i)) := by
          simp only [statement, current, found, gt_iff_lt, better, ↓reduceIte]
        rw [if_pos (decide_eq_true better)] at ends
        exact .silent turned (ih further current ends)
      · have turned : statement ⟨pending, count⟩ (.compare i bestIdx) =
            (⟨pending, count⟩, [], .proceed (.compare (i + 1) bestIdx)) := by
          simp only [statement, current, found, gt_iff_lt, better, ↓reduceIte]
        rw [if_neg (by simpa only [decide_eq_true_eq] using better)] at ends
        exact .silent turned (ih further found ends)

/-- Every message from where the loop stands on is skipped once more. -/
theorem increment_ends (out : Message ι) :
    code.Ends (rest.length + 1) ⟨front ++ rest, count⟩ (.proceed (.increment front.length out))
      ⟨front ++ rest.map Message.skip, count⟩ [] (some (.next (some out))) := by
  induction rest generalizing front with
  | nil =>
      have left : statement ⟨front ++ [], count⟩ (.increment front.length out) =
          (⟨front ++ [], count⟩, [], .finish (.next (some out))) := by
        rw [statement, getElem?_past]
      exact .silent left (.finish 0 _ _)
  | cons msg rest ih =>
      have turned : statement ⟨front ++ msg :: rest, count⟩ (.increment front.length out) =
          (⟨front ++ msg.skip :: rest, count⟩, [],
            .proceed (.increment (front.length + 1) out)) := by
        simp only [statement, getElem?_middle, modify_middle]
        rfl
      have later := @ih (front ++ [msg.skip])
      simp only [List.append_assoc, List.singleton_append, List.length_append,
        List.length_singleton] at later
      exact .silent turned later

/-- `getNextMessage` does alone what its function says. -/
theorem getNextMessage_ends (scheduler : Scheduler ι) :
    code.Ends (2 * scheduler.pendingCount + 3) scheduler (.proceed .checkEmpty)
      (scheduler.perform .getNextMessage).1 (scheduler.perform .getNextMessage).2.1
      (scheduler.perform .getNextMessage).2.2 := by
  obtain ⟨pending, count⟩ := scheduler
  cases pending with
  | nil => exact .silent rfl (.finish _ _ _)
  | cons first rest =>
      obtain ⟨front, out, back, split, found, erased, -⟩ := Selection.bestIndex_pick
        (fun best curr : Message ι => decide (best.score < curr.score))
        (List.cons_ne_nil first rest)
      have picked : getNextMessage ⟨first :: rest, count⟩ =
          some (out, ⟨(front ++ back).map Message.skip, count⟩) := by
        rw [getNextMessage, if_neg nofun]
        simp only [findHighestPriorityIndex, found, erased, Option.map_some]
      have length : (front ++ back).length = rest.length := by
        have lengths := congrArg List.length split
        simp only [List.length_append, List.length_cons] at lengths ⊢
        omega
      have left : code.Ends ((front ++ back).length + 1) ⟨front ++ back, count⟩
          (.proceed (.increment 0 out)) ⟨(front ++ back).map Message.skip, count⟩ []
          (some (.next (some out))) := @increment_ends ι [] (front ++ back) count out
      have taken : code.Ends (rest.length + 3) ⟨first :: rest, count⟩
          (.proceed (.copyOut (findHighestPriorityIndex (first :: rest))))
          ⟨(front ++ back).map Message.skip, count⟩ [] (some (.next (some out))) := by
        have copied : statement ⟨first :: rest, count⟩
            (.copyOut (findHighestPriorityIndex (first :: rest))) = (⟨first :: rest, count⟩, [],
              .proceed (.erase (findHighestPriorityIndex (first :: rest)) out)) := by
          simp only [statement, findHighestPriorityIndex, found]
        have gone : statement ⟨first :: rest, count⟩
            (.erase (findHighestPriorityIndex (first :: rest)) out) =
              (⟨front ++ back, count⟩, [], .proceed (.increment 0 out)) := by
          simp only [statement, findHighestPriorityIndex, erased]
        rw [length] at left
        exact .silent copied (.silent gone left)
      have scanned := compare_ends (show (first :: rest).drop 1 = rest from rfl)
        (show (first :: rest)[0]? = some first from rfl) taken
      have within : rest.length + 3 + (rest.length + 1) + 1 ≤ 2 * (rest.length + 1) + 3 := by
        omega
      rw [perform, picked]
      exact (Code.Ends.silent rfl scanned).mono within

/-! ## Aging -/

/-- A boost raises the level, resets the counter and is logged. -/
theorem boosted_cases (front rest : List (Message ι)) (count : ℕ) {msg : Message ι}
    (boosted : msg.Boosted) : ∃ level,
    statement ⟨front ++ msg :: rest, count⟩ (.checkAging front.length) =
      (⟨front ++ msg :: rest, count⟩, [], .proceed (.raise front.length level)) ∧
    msg.age = { msg with priority := level, agingCounter := 0 } ∧
    msg.agingLine = some (msg.boostNotice level, msg.ticket) := by
  obtain ⟨reached, below⟩ := boosted
  have found := getElem?_middle front rest msg
  cases level : msg.priority with
  | low =>
      refine ⟨.medium, ?_, ?_, ?_⟩
      · simp only [statement, found, ge_iff_le, reached, level, ↓reduceIte]
      · simp only [Message.age, ge_iff_le, reached, level, ↓reduceIte]
      · simp only [Message.agingLine, Message.agingNotice, Message.boostNotice, ge_iff_le,
          reached, level, ↓reduceIte, Option.map_some]
  | medium =>
      refine ⟨.high, ?_, ?_, ?_⟩
      · simp only [statement, found, ge_iff_le, reached, level, ↓reduceIte]
      · simp only [Message.age, ge_iff_le, reached, level, ↓reduceIte]
      · simp only [Message.agingLine, Message.agingNotice, Message.boostNotice, ge_iff_le,
          reached, level, ↓reduceIte, reduceCtorEq, Option.map_some]
  | high => exact absurd level below

/-- Any other message is passed. -/
theorem not_boosted_cases (front rest : List (Message ι)) (count : ℕ) {msg : Message ι}
    (kept : ¬ msg.Boosted) :
    statement ⟨front ++ msg :: rest, count⟩ (.checkAging front.length) =
      (⟨front ++ msg :: rest, count⟩, [], .proceed (.checkAging (front.length + 1))) ∧
    msg.agingLine = none := by
  have found := getElem?_middle front rest msg
  by_cases reached : Config.agingThreshold ≤ msg.agingCounter
  · have high : msg.priority = .high := by
      by_contra below
      exact kept ⟨reached, below⟩
    constructor
    · simp only [statement, found, ge_iff_le, reached, high, ↓reduceIte]
    · simp only [Message.agingLine, Message.agingNotice, ge_iff_le, reached, high, ↓reduceIte,
        Option.map_none]
  · constructor
    · simp only [statement, found, ge_iff_le, reached, ↓reduceIte]
    · simp only [Message.agingLine, Message.agingNotice, ge_iff_le, reached, ↓reduceIte,
        Option.map_none]

/-- Every message from where the loop stands on is aged, and each boost counted and logged. -/
theorem checkAging_ends :
    code.Ends (5 * rest.length + 1) ⟨front ++ rest, count⟩ (.proceed (.checkAging front.length))
      ⟨front ++ rest.map Message.age, count + rest.countP fun msg => decide msg.Boosted⟩
      (rest.filterMap Message.agingLine) (some .aged) := by
  induction rest generalizing front count with
  | nil =>
      have left : statement ⟨front ++ [], count⟩ (.checkAging front.length) =
          (⟨front ++ [], count⟩, [], .finish .aged) := by
        rw [statement, getElem?_past]
      exact .silent left (.finish 0 _ _)
  | cons msg rest ih =>
      have onward (count : ℕ) := @ih (front ++ [msg.age]) count
      simp only [List.append_assoc, List.singleton_append, List.length_append,
        List.length_singleton] at onward
      rw [List.map_cons, List.length_cons]
      by_cases boosted : msg.Boosted
      · obtain ⟨level, checked, aged, notice⟩ := boosted_cases front rest count boosted
        have raised : statement ⟨front ++ msg :: rest, count⟩ (.raise front.length level) =
            (⟨front ++ { msg with priority := level } :: rest, count⟩, [],
              .proceed (.countBoost front.length level)) := by
          rw [statement, modify_middle]
        have logged : statement ⟨front ++ { msg with priority := level } :: rest, count + 1⟩
            (.logBoost front.length level) = (⟨front ++ { msg with priority := level } :: rest,
              count + 1⟩, [(msg.boostNotice level, msg.ticket)],
              .proceed (.resetCounter front.length)) := by
          rw [statement, getElem?_middle]
          rfl
        have reset : statement ⟨front ++ { msg with priority := level } :: rest, count + 1⟩
            (.resetCounter front.length) = (⟨front ++ msg.age :: rest, count + 1⟩, [],
              .proceed (.checkAging (front.length + 1))) := by
          rw [statement, modify_middle, aged]
        have counted : (msg :: rest).countP (fun msg => decide msg.Boosted) =
            rest.countP (fun msg => decide msg.Boosted) + 1 :=
          List.countP_cons_of_pos (decide_eq_true boosted)
        rw [List.filterMap_cons_some notice, counted, ← Nat.add_assoc, Nat.add_right_comm count]
        have boosts : code.Ends (5 * rest.length + 1 + 1 + 1)
            ⟨front ++ { msg with priority := level } :: rest, count + 1⟩
            (.proceed (.logBoost front.length level))
            ⟨front ++ msg.age :: rest.map Message.age,
              count + 1 + rest.countP fun msg => decide msg.Boosted⟩
            ([(msg.boostNotice level, msg.ticket)] ++ rest.filterMap Message.agingLine)
            (some .aged) :=
          .proceed logged (.silent reset (onward (count + 1)))
        exact .silent checked (.silent raised (.silent rfl boosts))
      · obtain ⟨passed, silent⟩ := not_boosted_cases front rest count boosted
        have counted : (msg :: rest).countP (fun msg => decide msg.Boosted) =
            rest.countP fun msg => decide msg.Boosted :=
          List.countP_cons_of_neg (by simpa only [decide_eq_true_eq] using boosted)
        have later := onward count
        rw [Message.age_of_not_boosted boosted] at later ⊢
        rw [List.filterMap_cons_none silent, counted]
        exact (Code.Ends.silent passed later).mono (by omega)

/-- **Every function does alone what it means.** -/
theorem implements : Implements code (perform (ι := ι)) statements where
  ends scheduler function := by
    have enough : scheduler.statements = 5 * scheduler.pendingCount + 5 := rfl
    cases function with
    | addMessage msg | pendingCount => exact .silent rfl (.finish _ _ _)
    | getNextMessage => exact scheduler.getNextMessage_ends.mono (by omega)
    | applyAging =>
        have ends : code.Ends (5 * scheduler.pendingCount + 1) scheduler
            (.proceed (.checkAging 0)) scheduler.applyAging
            (scheduler.pendingMessages.filterMap Message.agingLine) (some .aged) :=
          @checkAging_ends ι [] scheduler.pendingMessages scheduler.agingEventCount
        exact ends.mono (by omega)
  waits scheduler function asleep := by
    cases function with
    | getNextMessage =>
        cases picked : scheduler.getNextMessage with
        | none =>
            rw [perform, picked] at asleep
            cases asleep
        | some taken =>
            rw [perform, picked] at asleep
            cases asleep
    | addMessage | applyAging | pendingCount => cases asleep

/-! ## How much is pending behind the mutex -/

variable {scheduler last : Scheduler ι} {point : SchedulerPoint ι} {written : List (String × ι)}
  {outcome : Outcome (SchedulerPoint ι) (SchedulerResult ι)}

/-- Only the statement that adds a message leaves more pending, and its function ends there. -/
theorem statement_pendingCount (does : scheduler.statement point = (last, written, outcome)) :
    last.pendingCount ≤ scheduler.pendingCount ∨
      outcome = .finish .added ∧ last.pendingCount = scheduler.pendingCount + 1 := by
  have kept {lines : List (String × ι)} {onward : Outcome (SchedulerPoint ι) (SchedulerResult ι)}
      (same : (scheduler, lines, onward) = (last, written, outcome)) :
      last.pendingCount ≤ scheduler.pendingCount := by
    obtain ⟨rfl, -⟩ := Prod.mk.inj same
    exact le_rfl
  have changed {i : ℕ} {change : Message ι → Message ι} {lines : List (String × ι)}
      {onward : Outcome (SchedulerPoint ι) (SchedulerResult ι)}
      (same : ({ scheduler with
        pendingMessages := scheduler.pendingMessages.modify i change }, lines, onward) =
          (last, written, outcome)) : last.pendingCount ≤ scheduler.pendingCount := by
    obtain ⟨rfl, -⟩ := Prod.mk.inj same
    exact (List.length_modify ..).le
  cases point with
  | pushBack msg =>
      obtain ⟨rfl, -, rfl⟩ := Prod.mk.injEq .. ▸ does
      exact Or.inr ⟨rfl, List.length_append⟩
  | erase bestIdx out =>
      obtain ⟨rfl, -⟩ := Prod.mk.inj does
      exact Or.inl (List.length_eraseIdx_le _ _)
  | countBoost i level =>
      obtain ⟨rfl, -⟩ := Prod.mk.inj does
      exact Or.inl le_rfl
  | raise i level => exact Or.inl (changed does)
  | resetCounter i => exact Or.inl (changed does)
  | logBoost i level => exact Or.inl (kept does)
  | size => exact Or.inl (kept does)
  | checkEmpty =>
      left
      rw [statement] at does
      split at does <;> exact kept does
  | compare i bestIdx =>
      left
      rw [statement] at does
      split at does
      · split at does
        · split at does <;> exact kept does
        · exact kept does
      · exact kept does
  | copyOut bestIdx =>
      left
      rw [statement] at does
      split at does <;> exact kept does
  | increment i out =>
      left
      rw [statement] at does
      split at does
      · exact changed does
      · exact kept does
  | checkAging i =>
      left
      rw [statement] at does
      split at does
      · split at does
        · split at does <;> exact kept does
        · exact kept does
      · exact kept does

/-- The rest of a function leaves no more pending, unless it is the one that adds a message. -/
theorem pendingCount_of_ends {steps : ℕ} {value : Option (SchedulerResult ι)}
    (ends : code.Ends steps scheduler outcome last written value) :
    last.pendingCount ≤ scheduler.pendingCount ∨
      value = some .added ∧ last.pendingCount ≤ scheduler.pendingCount + 1 := by
  induction ends with
  | finish => exact Or.inl le_rfl
  | block => exact Or.inl le_rfl
  | proceed does ends ih =>
      rcases statement_pendingCount does with fewer | ⟨rfl, one⟩
      · exact ih.imp fewer.trans' fun ⟨added, more⟩ =>
          ⟨added, more.trans (Nat.succ_le_succ fewer)⟩
      · obtain ⟨rfl, -, rfl⟩ := ends.of_finish
        exact Or.inr ⟨rfl, one.le⟩

/-- A function takes out one message at most, and adds one if it is the one that adds. -/
theorem pendingCount_perform (scheduler : Scheduler ι) (function : SchedulerFunction ι) :
    scheduler.pendingCount ≤ (scheduler.perform function).1.pendingCount + 1 ∧
      ((scheduler.perform function).2.2 = some .added →
        (scheduler.perform function).1.pendingCount = scheduler.pendingCount + 1) := by
  cases function with
  | addMessage msg =>
      have one : (scheduler.addMessage msg).pendingCount = scheduler.pendingCount + 1 :=
        List.length_append
      exact ⟨by rw [perform, one]; omega, fun _ => one⟩
  | getNextMessage =>
      cases picked : scheduler.getNextMessage with
      | none =>
          rw [perform, picked]
          exact ⟨Nat.le_succ _, nofun⟩
      | some pick =>
          obtain ⟨front, back, split, rest, -⟩ := getNextMessage_eq_some picked
          have fewer : pick.2.pendingCount + 1 = scheduler.pendingCount := by
            rw [pendingCount, pendingCount, split, rest]
            simp only [List.length_map, List.length_append, List.length_cons]
            omega
          rw [perform, picked]
          exact ⟨fewer.ge, nofun⟩
  | applyAging =>
      have same : scheduler.applyAging.pendingCount = scheduler.pendingCount := by
        rw [pendingCount, pendingCount, applyAging_pendingMessages, List.length_map]
      exact ⟨by rw [perform, same]; omega, nofun⟩
  | pendingCount => exact ⟨Nat.le_succ _, nofun⟩

/-- Inside a function, at most one of the messages pending before it is out. -/
theorem pendingCount_before {before : Scheduler ι} {function : SchedulerFunction ι} {steps : ℕ}
    (ends : code.Ends steps scheduler outcome (before.perform function).1 written
      (before.perform function).2.2) : before.pendingCount ≤ scheduler.pendingCount + 1 := by
  obtain ⟨fewer, adds⟩ := before.pendingCount_perform function
  rcases pendingCount_of_ends ends with fewest | ⟨added, more⟩
  · exact fewer.trans (Nat.succ_le_succ fewest)
  · have one := adds added
    omega

end Scheduler

/-! ## Among threads -/

/-- The call of the scheduler's history, if the function changed something. -/
def SchedulerFunction.call : SchedulerFunction Unit → SchedulerResult Unit → Option Call
  | .addMessage msg, _ => some (.addMessage msg)
  | .getNextMessage, .next (some _) => some .getNextMessage
  | .applyAging, _ => some .applyAging
  | _, _ => none

/-- The message a function returned. -/
def SchedulerResult.out : SchedulerResult Unit → Option (Message Unit)
  | .next out => out
  | _ => none

/-- A function performed, with what it returned. -/
abbrev Performance := SchedulerFunction Unit × SchedulerResult Unit

/-- The scheduler's mutex and the threads that call its functions. -/
abbrev SchedulerThreads (τ : Type) := Guarded (Scheduler Unit) (SchedulerFunction Unit)
  (SchedulerPoint Unit) (SchedulerResult Unit) (String × Unit) τ

/-- The calls among the functions performed. -/
def madeCalls (performed : List Performance) : List Call :=
  performed.filterMap fun (function, result) => function.call result

/-- The messages that the functions performed returned. -/
def givenOut (performed : List Performance) : List (Message Unit) :=
  performed.filterMap fun (_, result) => result.out

variable {performed : List Performance} {function : SchedulerFunction Unit}
  {result : SchedulerResult Unit}

theorem madeCalls_append : madeCalls (performed ++ [(function, result)]) =
    madeCalls performed ++ (function.call result).toList := by
  simp only [madeCalls, List.filterMap_eq_flatMap_toList, List.flatMap_append,
    List.flatMap_singleton]

theorem givenOut_append : givenOut (performed ++ [(function, result)]) =
    givenOut performed ++ result.out.toList := by
  simp only [givenOut, List.filterMap_eq_flatMap_toList, List.flatMap_append,
    List.flatMap_singleton]

/-- A history of the functions performed. -/
structure History.Of (history : History) (scheduler : Scheduler Unit)
    (performed : List Performance) : Prop where
  run : exec History.step .initial (madeCalls performed) = some history
  scheduler : history.scheduler.untracked = scheduler
  returned : history.returned.map Message.untracked = givenOut performed

theorem History.Of.perform {history : History} {scheduler next : Scheduler Unit}
    {written : List (String × Unit)} (of : history.Of scheduler performed)
    (performs : scheduler.perform function = (next, written, some result)) :
    ∃ later : History, later.Of next (performed ++ [(function, result)]) := by
  obtain ⟨run, rfl, returned⟩ := of
  have onward {call : Call} {later : History} (taken : history.step call = some later) :
      exec History.step .initial (madeCalls performed ++ [call]) = some later :=
    exec_append_eq_some.mpr ⟨history, run, exec_cons_eq_some.mpr ⟨later, taken, rfl⟩⟩
  cases function with
  | addMessage msg =>
      obtain ⟨rfl, -, rfl⟩ := performs
      obtain ⟨later, taken⟩ : ∃ later, history.step (.addMessage msg) = some later := ⟨_, rfl⟩
      obtain ⟨scheduler, -, same⟩ := History.step_addMessage taken
      refine ⟨later, madeCalls_append ▸ onward taken, ?_, ?_⟩
      · rw [scheduler]
        exact Scheduler.untracked_addMessage ..
      · rw [same, givenOut_append, returned]
        exact (List.append_nil _).symm
  | getNextMessage =>
      have untracked := Scheduler.untracked_getNextMessage history.scheduler
      cases picked : history.scheduler.getNextMessage with
      | none =>
          rw [picked, Option.map_none] at untracked
          rw [Scheduler.perform, untracked] at performs
          obtain ⟨rfl, -, rfl⟩ := performs
          refine ⟨history, ?_, rfl, ?_⟩
          · rw [madeCalls_append]
            exact (congrArg _ (List.append_nil _)).trans run
          · rw [givenOut_append, returned]
            exact (List.append_nil _).symm
      | some pick =>
          rw [picked, Option.map_some] at untracked
          rw [Scheduler.perform, untracked] at performs
          obtain ⟨rfl, -, rfl⟩ := performs
          refine ⟨{ history with scheduler := pick.2, returned := history.returned ++ [pick.1] },
            madeCalls_append ▸ onward ?_, rfl, ?_⟩
          · rw [History.step, picked]
            rfl
          · rw [givenOut_append, List.map_append, returned]
            rfl
  | applyAging =>
      obtain ⟨rfl, -, rfl⟩ := performs
      obtain ⟨later, taken⟩ : ∃ later, history.step .applyAging = some later := ⟨_, rfl⟩
      obtain ⟨scheduler, -, same⟩ := History.step_applyAging taken
      refine ⟨later, madeCalls_append ▸ onward taken, ?_, ?_⟩
      · rw [scheduler]
        exact Scheduler.untracked_applyAging ..
      · rw [same, givenOut_append, returned]
        exact (List.append_nil _).symm
  | pendingCount =>
      obtain ⟨rfl, -, rfl⟩ := performs
      refine ⟨history, ?_, rfl, ?_⟩
      · rw [madeCalls_append]
        exact (congrArg _ (List.append_nil _)).trans run
      · rw [givenOut_append, returned]
        exact (List.append_nil _).symm

/-- **The scheduler is thread-safe.** In every interleaving of the statements of any threads that
call `addMessage`, `getNextMessage`, `applyAging` and `pendingCount` of one scheduler: the threads
see what they would see if each function was performed at once between its call and its return;
what the functions performed added, gave out and aged is a run of the scheduler's history, with
the messages in it but for their tickets; at most one thread is between its statements behind the
mutex, and with none there nothing is half done; and the one that is there gets out by at most
five statements of its own for each message pending then and ten more, and for each pending when
it took the mutex and five more. -/
theorem schedulerThreadSafe {τ : Type} [DecidableEq τ]
    {moves : List (Move τ (SchedulerFunction Unit))} {s : SchedulerThreads τ}
    (run : exec (Guarded.step Scheduler.code) (.initial .new) moves = some s) :
    ∃ turns a history, exec (Sequential.step Scheduler.perform) (.initial .new) turns = some a ∧
      s.events = a.events ∧
      exec History.step .initial (madeCalls a.performed) = some history ∧
      history.scheduler.untracked = a.data ∧
      history.returned.map Message.untracked = givenOut a.performed ∧
      (∀ thread function outcome, s.threads thread = .inside function outcome →
        s.holder = some thread) ∧
      (s.holder = none → s.data = a.data ∧ s.written = a.written) ∧
      ∀ thread, s.holder = some thread → ∃ few ≤ 5 * (s.data.pendingCount + 1) + 5,
        few ≤ 5 * a.data.pendingCount + 5 ∧ ∃ next, exec (Guarded.step Scheduler.code) s
          (List.replicate few (.advance thread) ++ [.unlock thread]) = some next ∧
        next.holder = none := by
  obtain ⟨turns, a, performed, linearized⟩ := Scheduler.implements.linearizable run
  obtain ⟨history, of⟩ : ∃ history : History, history.Of a.data a.performed := by
    refine Sequential.exec_performed
      (fun scheduler performed => ∃ history : History, history.Of scheduler performed) ?_
      ⟨.initial, rfl, rfl, rfl⟩ performed
    rintro scheduler performed function next written result ⟨history, of⟩ performs
    exact of.perform performs
  refine ⟨turns, a, history, performed, linearized.events, of.run, of.scheduler, of.returned,
    linearized.alone, linearized.of_free, fun thread locked => ?_⟩
  obtain ⟨few, within, release⟩ := linearized.exists_release locked
  have shorter : a.data.pendingCount ≤ s.data.pendingCount + 1 := by
    cases linearized.shared with
    | free unlocked => cases locked.symm.trans unlocked
    | held _ _ _ _ _ ends => exact Scheduler.pendingCount_before ends
  refine ⟨few, within.trans ?_, within, release⟩
  rw [Scheduler.statements]
  omega

/-- A sender waits while the dispatcher is in the middle of its scan. -/
theorem schedulerThreadSafe_duringScan :
    let first := Message.create 1 2 "" .low 1 ""
    let second := Message.create 1 2 "" .high 2 ""
    let moves := [.call 1 (.addMessage first), .lock 1, .advance 1, .unlock 1, .reply 1,
      .call 0 .getNextMessage, .lock 0, .advance 0, .call 1 (.addMessage second), .advance 0]
    ∃ s : SchedulerThreads ℕ,
      exec (Guarded.step Scheduler.code) (.initial .new) moves = some s ∧
      s.step Scheduler.code (.lock 1) = none ∧ ∃ next, ∃ few ≤ 5 * (s.data.pendingCount + 1) + 5,
        exec (Guarded.step Scheduler.code) s
          (List.replicate few (.advance 0) ++ [.unlock 0]) = some next ∧ next.holder = none := by
  intro first second moves
  have reached : (exec (Guarded.step Scheduler.code) (.initial .new) moves).any (fun s =>
      decide (s.holder = some 0) && (s.step Scheduler.code (.lock 1)).isNone) = true := by
    decide +kernel
  obtain ⟨s, run, facts⟩ := (Option.any_eq_true _ _).mp reached
  obtain ⟨locked, waits⟩ := (Bool.and_eq_true _ _).mp facts
  obtain ⟨turns, a, history, -, -, -, -, -, -, -, release⟩ := schedulerThreadSafe run
  obtain ⟨few, within, -, next, free⟩ := release 0 (of_decide_eq_true locked)
  exact ⟨s, run, Option.isNone_iff_eq_none.mp waits, next, few, within, free⟩

end MessagePassing
