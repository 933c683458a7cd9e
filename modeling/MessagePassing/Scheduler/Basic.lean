import MessagePassing.Message
import Mathlib.Data.List.InsertIdx

/-! # The scheduler

The pending list with its three operations. `getNextMessage` scans for the first
message of maximal score, erases it and counts one more skip for each message
left; `applyAging` raises by one level every message below the highest that was
skipped often enough. Each operation has one lemma saying all it does
(`Scheduler.getNextMessage_eq_some`, `Message.age_cases`); nothing after this file
unfolds them.
-/

namespace MessagePassing

variable {ι κ : Type}

namespace Message

/-- What the scan compares: the level counts tenfold, each skip once. -/
def score (msg : Message ι) : ℤ := msg.priority.toInt * 10 + msg.agingCounter

/-- A message left behind by one more pick. -/
def skip (msg : Message ι) : Message ι := { msg with agingCounter := msg.agingCounter + 1 }

/-- One message under aging: a boost by one level resets the counter. -/
def age (msg : Message ι) : Message ι :=
  if msg.agingCounter ≥ Config.agingThreshold then
    match msg.priority with
    | .low => { msg with priority := .medium, agingCounter := 0 }
    | .medium => { msg with priority := .high, agingCounter := 0 }
    | .high => msg
  else msg

/-- The log text of a boost, if aging boosts the message. -/
def agingNotice (msg : Message ι) : Option String :=
  if msg.agingCounter ≥ Config.agingThreshold then
    match msg.priority with
    | .low => some ("Aging: MSG#" ++ ToString.toString msg.messageID ++
        " boosted LOW -> MEDIUM (waited " ++ ToString.toString msg.agingCounter ++ " turns)")
    | .medium => some ("Aging: MSG#" ++ ToString.toString msg.messageID ++
        " boosted MEDIUM -> HIGH (waited " ++ ToString.toString msg.agingCounter ++ " turns)")
    | .high => none
  else none

/-- Aging boosts the messages below the highest level that reached the threshold. -/
def Boosted (msg : Message ι) : Prop :=
  Config.agingThreshold ≤ msg.agingCounter ∧ msg.priority ≠ .high

instance (msg : Message ι) : Decidable msg.Boosted := inferInstanceAs (Decidable (_ ∧ _))

@[simp] theorem skip_priority (msg : Message ι) : msg.skip.priority = msg.priority := rfl

@[simp] theorem skip_agingCounter (msg : Message ι) :
    msg.skip.agingCounter = msg.agingCounter + 1 := rfl

@[simp] theorem skip_ticket (msg : Message ι) : msg.skip.ticket = msg.ticket := rfl

theorem carries_skip (msg : Message ι) : Carries msg msg.skip :=
  ⟨rfl, rfl, rfl, rfl, rfl, le_refl _⟩

theorem age_of_not_boosted {msg : Message ι} (kept : ¬ msg.Boosted) : msg.age = msg := by
  unfold age
  split
  · rename_i reached
    cases level : msg.priority with
    | low =>
        exact absurd ⟨reached, by simp only [level, ne_eq, reduceCtorEq, not_false_eq_true]⟩ kept
    | medium =>
        exact absurd ⟨reached, by simp only [level, ne_eq, reduceCtorEq, not_false_eq_true]⟩ kept
    | high => rfl
  · rfl

/-- A boost raises the priority by one level and resets the counter. -/
theorem age_of_boosted {msg : Message ι} (boosted : msg.Boosted) :
    msg.age.priority.toInt = msg.priority.toInt + 1 ∧ msg.age.agingCounter = 0 := by
  obtain ⟨reached, below⟩ := boosted
  unfold age
  rw [if_pos reached]
  cases level : msg.priority with
  | low => exact ⟨rfl, rfl⟩
  | medium => exact ⟨rfl, rfl⟩
  | high => exact absurd level below

/-- Everything aging does to one message. -/
theorem age_cases (msg : Message ι) :
    msg.age.priority.toInt = msg.priority.toInt + 1 ∧ msg.age.agingCounter = 0 ∧
        5 ≤ msg.agingCounter ∧ msg.priority.toInt ≤ 2 ∨
      msg.age = msg ∧ (msg.agingCounter < 5 ∨ msg.priority.toInt = 3) := by
  by_cases boosted : msg.Boosted
  · have raised := age_of_boosted boosted
    have bound := msg.age.priority.toInt_bounds.2
    exact Or.inl ⟨raised.1, raised.2, boosted.1, by omega⟩
  · refine Or.inr ⟨age_of_not_boosted boosted, ?_⟩
    by_cases reached : Config.agingThreshold ≤ msg.agingCounter
    · right
      by_contra below
      exact boosted ⟨reached, fun level => below ((Priority.eq_high_iff _).mp level)⟩
    · exact Or.inl (not_le.mp reached)

/-- Aging keeps a priority or raises it by one level. -/
theorem age_priority_bounds (msg : Message ι) :
    msg.priority.toInt ≤ msg.age.priority.toInt ∧
      msg.age.priority.toInt ≤ msg.priority.toInt + 1 := by
  rcases msg.age_cases with ⟨raised, -⟩ | ⟨same, -⟩
  · omega
  · rw [same]
    omega

/-- Below the highest level a message comes out of aging below the threshold. -/
theorem age_agingCounter_lt {msg : Message ι} (below : msg.age.priority ≠ .high) :
    msg.age.agingCounter < Config.agingThreshold := by
  rw [ne_eq, Priority.eq_high_iff] at below
  unfold Config.agingThreshold
  rcases msg.age_cases with ⟨-, reset, -⟩ | ⟨same, kept⟩
  · omega
  · rw [same] at below ⊢
    omega

theorem carries_age (msg : Message ι) : Carries msg msg.age := by
  unfold age
  split
  · cases level : msg.priority <;>
      exact ⟨rfl, rfl, rfl, rfl, rfl, by simp only [level, Priority.toInt]; decide⟩
  · exact Carries.refl msg

@[simp] theorem age_ticket (msg : Message ι) : msg.age.ticket = msg.ticket := by
  unfold age
  split
  · split <;> rfl
  · rfl

theorem Intact.skip {msg : Message Ticket} (intact : msg.Intact) : msg.skip.Intact :=
  Carries.trans intact msg.carries_skip

theorem Intact.age {msg : Message Ticket} (intact : msg.Intact) : msg.age.Intact := by
  rw [Intact, age_ticket]
  exact Carries.trans intact msg.carries_age

theorem age_agingCounter_nonneg {msg : Message ι} (nonneg : 0 ≤ msg.agingCounter) :
    0 ≤ msg.age.agingCounter := by
  rcases msg.age_cases with ⟨_, reset, _⟩ | ⟨same, _⟩
  · exact reset.ge
  · rw [same]
    exact nonneg

end Message

structure Scheduler (ι : Type) where
  pendingMessages : List (Message ι)
  agingEventCount : ℕ
  deriving DecidableEq

namespace Scheduler

/-- A fresh scheduler. -/
def new : Scheduler ι where
  pendingMessages := []
  agingEventCount := 0

def addMessage (scheduler : Scheduler ι) (msg : Message ι) : Scheduler ι :=
  { scheduler with pendingMessages := scheduler.pendingMessages ++ [msg] }

/-- Keep the earlier of two messages with the same score. -/
def findHighestPriorityIndex (pendingMessages : List (Message ι)) : ℕ :=
  Selection.bestIndex (fun best curr => decide (best.score < curr.score)) pendingMessages

/-- The picked message and the scheduler without it; nothing from an empty list. -/
def getNextMessage (scheduler : Scheduler ι) : Option (Message ι × Scheduler ι) :=
  if scheduler.pendingMessages.isEmpty then none
  else
    let bestIdx := findHighestPriorityIndex scheduler.pendingMessages
    scheduler.pendingMessages[bestIdx]?.map fun out =>
      (out, { scheduler with
        pendingMessages := (scheduler.pendingMessages.eraseIdx bestIdx).map Message.skip })

def applyAging (scheduler : Scheduler ι) : Scheduler ι where
  pendingMessages := scheduler.pendingMessages.map Message.age
  agingEventCount := scheduler.agingEventCount +
    scheduler.pendingMessages.countP fun msg => decide msg.Boosted

def pendingCount (scheduler : Scheduler ι) : ℕ := scheduler.pendingMessages.length

instance score_isStrictWeakOrder :
    IsStrictWeakOrder (Message ι) (fun a b => decide (a.score < b.score) = true) :=
  Selection.isStrictWeakOrder_of_rank Message.score fun _ _ => decide_eq_true_iff

@[simp] theorem addMessage_pendingMessages (scheduler : Scheduler ι) (msg : Message ι) :
    (scheduler.addMessage msg).pendingMessages = scheduler.pendingMessages ++ [msg] := rfl

@[simp] theorem applyAging_pendingMessages (scheduler : Scheduler ι) :
    scheduler.applyAging.pendingMessages = scheduler.pendingMessages.map Message.age := rfl

theorem getNextMessage_eq_none {scheduler : Scheduler ι} :
    scheduler.getNextMessage = none ↔ scheduler.pendingMessages = [] := by
  unfold getNextMessage
  refine ⟨?_, ?_⟩
  · intro nothing
    by_contra pending
    obtain ⟨_, _, _, _, picked, _⟩ :=
      Selection.bestIndex_pick (fun best curr : Message ι => decide (best.score < curr.score))
        pending
    rw [if_neg (by simpa only [List.isEmpty_iff] using pending)] at nothing
    simp only [findHighestPriorityIndex, picked, Option.map_some, reduceCtorEq] at nothing
  · intro empty
    rw [if_pos (List.isEmpty_iff.mpr empty)]

/-- **What a pick does.** It removes one message, scoring strictly above every
earlier and at least as high as every later pending message, and counts a skip for
each message left, in place. -/
theorem getNextMessage_eq_some {scheduler next : Scheduler ι} {out : Message ι}
    (picked : scheduler.getNextMessage = some (out, next)) :
    ∃ front back, scheduler.pendingMessages = front ++ out :: back ∧
      next.pendingMessages = (front ++ back).map Message.skip ∧
      next.agingEventCount = scheduler.agingEventCount ∧
      (∀ msg ∈ front, msg.score < out.score) ∧ ∀ msg ∈ back, msg.score ≤ out.score := by
  have pending : scheduler.pendingMessages ≠ [] := by
    intro empty
    rw [getNextMessage_eq_none.mpr empty] at picked
    cases picked
  obtain ⟨front, best, back, split, first, rest, below, above⟩ :=
    Selection.bestIndex_pick (fun best curr : Message ι => decide (best.score < curr.score))
      pending
  unfold getNextMessage at picked
  rw [if_neg (by simpa only [List.isEmpty_iff] using pending)] at picked
  simp only [findHighestPriorityIndex, first, rest, Option.map_some, Option.some.injEq,
    Prod.mk.injEq] at picked
  obtain ⟨rfl, rfl⟩ := picked
  exact ⟨front, back, split, rfl, rfl, fun msg member => of_decide_eq_true (below msg member),
    fun msg member => not_lt.mp fun higher => above msg member (decide_eq_true higher)⟩

theorem exists_getNextMessage {scheduler : Scheduler ι} {msg : Message ι}
    (pending : msg ∈ scheduler.pendingMessages) :
    ∃ out next, scheduler.getNextMessage = some (out, next) := by
  cases picked : scheduler.getNextMessage with
  | none =>
      rw [getNextMessage_eq_none.mp picked] at pending
      cases pending
  | some result => exact ⟨result.1, result.2, rfl⟩

end Scheduler

/-! ## Tickets are never read -/

namespace Message

/-- The message as the program has it. -/
def untracked (msg : Message ι) : Message Unit := msg.withTicket ()

@[simp] theorem untracked_priority (msg : Message ι) : msg.untracked.priority = msg.priority := rfl

@[simp] theorem untracked_agingCounter (msg : Message ι) :
    msg.untracked.agingCounter = msg.agingCounter := rfl

theorem untracked_age (msg : Message ι) : msg.age.untracked = msg.untracked.age := by
  obtain ⟨senderID, receiverID, text, priority, timestamp, messageID, agingCounter, ticket⟩ := msg
  by_cases reached : Config.agingThreshold ≤ agingCounter
  · cases priority <;> simp only [age, untracked, withTicket, ge_iff_le, reached, ↓reduceIte]
  · simp only [age, untracked, withTicket, ge_iff_le, reached, ↓reduceIte]

theorem untracked_stamp (msg : Message Unit) (serial : ℕ) : (msg.stamp serial).untracked = msg :=
  rfl

end Message

namespace Scheduler

/-- The scheduler as the program has it. -/
def untracked (scheduler : Scheduler ι) : Scheduler Unit where
  pendingMessages := scheduler.pendingMessages.map Message.untracked
  agingEventCount := scheduler.agingEventCount

theorem untracked_addMessage (scheduler : Scheduler ι) (msg : Message ι) :
    (scheduler.addMessage msg).untracked = scheduler.untracked.addMessage msg.untracked := by
  simp only [untracked, addMessage, List.map_append, List.map_cons, List.map_nil]

theorem untracked_applyAging (scheduler : Scheduler ι) :
    scheduler.applyAging.untracked = scheduler.untracked.applyAging := by
  simp only [untracked, applyAging, List.map_map, List.countP_map, Scheduler.mk.injEq]
  exact ⟨List.map_congr_left fun msg _ => msg.untracked_age, rfl⟩

theorem untracked_getNextMessage (scheduler : Scheduler ι) :
    scheduler.untracked.getNextMessage =
      scheduler.getNextMessage.map fun (out, next) => (out.untracked, next.untracked) := by
  have index : findHighestPriorityIndex scheduler.untracked.pendingMessages =
      findHighestPriorityIndex scheduler.pendingMessages :=
    Selection.bestIndex_map _ Message.untracked scheduler.pendingMessages
  unfold getNextMessage
  rw [index]
  simp only [untracked, List.isEmpty_map, List.getElem?_map, List.eraseIdx_map]
  by_cases empty : scheduler.pendingMessages.isEmpty
  · rw [if_pos empty, if_pos empty]
    rfl
  · rw [if_neg empty, if_neg empty, Option.map_map, Option.map_map]
    apply Option.map_congr
    intro out _
    simp only [Function.comp_apply, List.map_map]
    rfl

/-- Schedulers that differ in tickets only pick the same message. -/
theorem getNextMessage_of_untracked {scheduler rest : Scheduler ι} {other : Scheduler κ}
    {msg : Message ι} (same : other.untracked = scheduler.untracked)
    (picked : scheduler.getNextMessage = some (msg, rest)) :
    ∃ out next, other.getNextMessage = some (out, next) ∧ next.untracked = rest.untracked := by
  have both : (other.getNextMessage.map fun (out, next) => (out.untracked, next.untracked)) =
      some (msg.untracked, rest.untracked) := by
    rw [← untracked_getNextMessage, same, untracked_getNextMessage, picked]
    rfl
  obtain ⟨⟨out, next⟩, alsoPicked, equal⟩ := Option.map_eq_some_iff.mp both
  exact ⟨out, next, alsoPicked, (Prod.mk.inj equal).2⟩

theorem getNextMessage_none_of_untracked {scheduler : Scheduler ι} {other : Scheduler κ}
    (same : other.untracked = scheduler.untracked) (idle : scheduler.getNextMessage = none) :
    other.getNextMessage = none := by
  rw [← Option.map_eq_none_iff, ← untracked_getNextMessage, same, untracked_getNextMessage, idle]
  rfl

end Scheduler

end MessagePassing
