import MessagePassing.Scheduler.Basic
import Mathlib.Data.List.Pairwise

/-! # Which pending message stays ahead of which

The score of a message may fall when aging resets its counter, so comparing scores
is not kept by aging. `Message.Dominates` is: the dominating message has at least
the priority and at least the counter, or a higher priority and a counter behind by
less than the aging threshold. All three scheduler operations keep a pending list
in which messages put ahead of others dominate them and stand before them
(`Scheduler.Ordered`), and from such a list no message is picked while one put
ahead of it is pending (`Scheduler.Ordered.not_picked`).
-/

namespace MessagePassing

variable {ι : Type}

/-- The message at one position of a pending list is picked before the one at
another: it scores higher, or as high and stands earlier. -/
def PickedBefore (pendingMessages : List (Message ι)) (i j : ℕ) : Prop :=
  ∃ a b, pendingMessages[i]? = some a ∧ pendingMessages[j]? = some b ∧
    (b.score < a.score ∨ b.score = a.score ∧ i < j)

namespace Message

/-- The first message is picked before the second if it stands before it, and stays
so under skips and aging. -/
def Dominates (a b : Message ι) : Prop :=
  b.priority.toInt ≤ a.priority.toInt ∧ b.agingCounter ≤ a.agingCounter ∨
    b.priority.toInt < a.priority.toInt ∧
      b.agingCounter < a.agingCounter + Config.agingThreshold

theorem Dominates.score_le {a b : Message ι} (ahead : a.Dominates b) : b.score ≤ a.score := by
  unfold Dominates Config.agingThreshold at ahead
  unfold score
  omega

theorem Dominates.skip {a b : Message ι} (ahead : a.Dominates b) : a.skip.Dominates b.skip := by
  unfold Dominates at ahead ⊢
  simp only [skip_priority, skip_agingCounter]
  omega

/-- A boost of either message, or of both, keeps the first ahead. -/
theorem Dominates.age {a b : Message ι} (ahead : a.Dominates b) (nonneg : 0 ≤ a.agingCounter) :
    a.age.Dominates b.age := by
  unfold Dominates Config.agingThreshold at ahead ⊢
  rcases a.age_cases with ⟨raisedA, resetA, reachedA, belowA⟩ | ⟨sameA, keptA⟩ <;>
    rcases b.age_cases with ⟨raisedB, resetB, reachedB, belowB⟩ | ⟨sameB, keptB⟩
  · omega
  · rw [sameB]
    omega
  · rw [sameA]
    omega
  · rw [sameA, sameB]
    exact ahead

/-- Standing before a message of at most its priority that was not skipped yet, a
message stays ahead of it. -/
theorem dominates_of_priority_le {a b : Message ι} (level : b.priority.toInt ≤ a.priority.toInt)
    (nonneg : 0 ≤ a.agingCounter) (fresh : b.agingCounter = 0) : a.Dominates b :=
  Or.inl ⟨level, fresh.trans_le nonneg⟩

/-- Where two pending messages stand when some tickets are put ahead of others. -/
def Precedes (ahead : ι → ι → Prop) (a b : Message ι) : Prop :=
  (ahead a.ticket b.ticket → a.Dominates b) ∧ ¬ ahead b.ticket a.ticket

end Message

namespace Scheduler

/-- The pending messages put ahead of others dominate them and stand before them. -/
structure Ordered (ahead : ι → ι → Prop) (scheduler : Scheduler ι) : Prop where
  nonneg : ∀ msg ∈ scheduler.pendingMessages, 0 ≤ msg.agingCounter
  precedes : scheduler.pendingMessages.Pairwise (Message.Precedes ahead)

variable {ahead : ι → ι → Prop} {scheduler next : Scheduler ι} {msg out : Message ι}

theorem Ordered.new : (Scheduler.new : Scheduler ι).Ordered ahead where
  nonneg _ member := by cases member
  precedes := List.Pairwise.nil

/-- Adding a message behind those it follows. -/
theorem Ordered.addMessage (ordered : scheduler.Ordered ahead) (nonneg : 0 ≤ msg.agingCounter)
    (follows : ∀ earlier ∈ scheduler.pendingMessages, earlier.Precedes ahead msg) :
    (scheduler.addMessage msg).Ordered ahead where
  nonneg other member := by
    rcases List.mem_append.mp member with pending | last
    · exact ordered.nonneg other pending
    · exact List.mem_singleton.mp last ▸ nonneg
  precedes := by
    rw [addMessage_pendingMessages, List.pairwise_append]
    refine ⟨ordered.precedes, List.pairwise_singleton _ _, fun earlier pending other last => ?_⟩
    exact List.mem_singleton.mp last ▸ follows earlier pending

theorem Ordered.getNextMessage (ordered : scheduler.Ordered ahead)
    (picked : scheduler.getNextMessage = some (out, next)) : next.Ordered ahead := by
  obtain ⟨front, back, split, rest, _⟩ := getNextMessage_eq_some picked
  have kept : (front ++ back).Sublist scheduler.pendingMessages := by
    rw [split]
    exact List.Sublist.append_left (List.sublist_cons_self out back) front
  refine ⟨?_, ?_⟩
  · intro msg member
    rw [rest] at member
    obtain ⟨earlier, remains, rfl⟩ := List.mem_map.mp member
    have := ordered.nonneg earlier (kept.subset remains)
    rw [Message.skip_agingCounter]
    omega
  · rw [rest, List.pairwise_map]
    refine (ordered.precedes.sublist kept).imp fun {a b} precedes => ?_
    exact ⟨fun put => (precedes.1 put).skip, precedes.2⟩

theorem Ordered.applyAging (ordered : scheduler.Ordered ahead) :
    scheduler.applyAging.Ordered ahead where
  nonneg msg member := by
    obtain ⟨earlier, pending, rfl⟩ := List.mem_map.mp member
    exact Message.age_agingCounter_nonneg (ordered.nonneg earlier pending)
  precedes := by
    rw [applyAging_pendingMessages, List.pairwise_map]
    refine ordered.precedes.imp_of_mem fun {a b} pending _ precedes => ?_
    rw [Message.Precedes, Message.age_ticket, Message.age_ticket]
    exact ⟨fun put => (precedes.1 put).age (ordered.nonneg a pending), precedes.2⟩

/-- **Non-overtaking, one pick.** No message is picked while one put ahead of it is
pending. -/
theorem Ordered.not_picked (ordered : scheduler.Ordered ahead)
    (irreflexive : ∀ ticket, ¬ ahead ticket ticket)
    (pending : msg ∈ scheduler.pendingMessages)
    (picked : scheduler.getNextMessage = some (out, next)) : ¬ ahead msg.ticket out.ticket := by
  intro put
  obtain ⟨front, back, split, _, _, below, _⟩ := getNextMessage_eq_some picked
  have precedes := ordered.precedes
  rw [split, List.pairwise_append, List.pairwise_cons] at precedes
  rw [split] at pending
  rcases List.mem_append.mp pending with inFront | inTail
  · have dominates := (precedes.2.2 msg inFront out List.mem_cons_self).1 put
    exact (below msg inFront).not_ge dominates.score_le
  · rcases List.mem_cons.mp inTail with rfl | inBack
    · exact irreflexive _ put
    · exact (precedes.2.1.1 msg inBack).2 put

/-- Tickets leave the pending list only when they are picked. -/
theorem pending_tickets_perm (picked : scheduler.getNextMessage = some (out, next)) :
    (scheduler.pendingMessages.map Message.ticket).Perm
      (out.ticket :: next.pendingMessages.map Message.ticket) := by
  obtain ⟨front, back, split, rest, _⟩ := getNextMessage_eq_some picked
  have same : Message.ticket ∘ Message.skip = (Message.ticket : Message ι → ι) := rfl
  rw [split, rest, List.map_map, same, ← List.map_cons]
  exact List.perm_middle.map Message.ticket

theorem applyAging_tickets (scheduler : Scheduler ι) :
    scheduler.applyAging.pendingMessages.map Message.ticket =
      scheduler.pendingMessages.map Message.ticket := by
  rw [applyAging_pendingMessages, List.map_map]
  exact List.map_congr_left fun msg _ => msg.age_ticket

theorem out_mem (picked : scheduler.getNextMessage = some (out, next)) :
    out ∈ scheduler.pendingMessages := by
  obtain ⟨front, back, split, _⟩ := getNextMessage_eq_some picked
  rw [split]
  exact List.mem_append_right front List.mem_cons_self

/-- No pending message scores above the one picked. -/
theorem score_le_of_mem (picked : scheduler.getNextMessage = some (out, next))
    (pending : msg ∈ scheduler.pendingMessages) : msg.score ≤ out.score := by
  obtain ⟨front, back, split, _, _, below, above⟩ := getNextMessage_eq_some picked
  rw [split, List.perm_middle.mem_iff, List.mem_cons, List.mem_append] at pending
  rcases pending with rfl | inFront | inBack
  · exact le_rfl
  · exact (below msg inFront).le
  · exact above msg inBack

/-- A pending message is picked, or remains and is skipped once more. -/
theorem eq_or_skip_mem (picked : scheduler.getNextMessage = some (out, next))
    (pending : msg ∈ scheduler.pendingMessages) : msg = out ∨ msg.skip ∈ next.pendingMessages := by
  obtain ⟨front, back, split, rest, _⟩ := getNextMessage_eq_some picked
  rw [split, List.perm_middle.mem_iff] at pending
  rcases List.mem_cons.mp pending with isOut | remains
  · exact Or.inl isOut
  · right
    rw [rest]
    exact List.mem_map_of_mem remains

/-- What remains after a pick are the other messages, each skipped once more. -/
theorem mem_of_mem_next (picked : scheduler.getNextMessage = some (out, next))
    (remains : msg ∈ next.pendingMessages) :
    ∃ earlier ∈ scheduler.pendingMessages, msg = earlier.skip := by
  obtain ⟨front, back, split, rest, _⟩ := getNextMessage_eq_some picked
  rw [rest] at remains
  obtain ⟨earlier, member, rfl⟩ := List.mem_map.mp remains
  refine ⟨earlier, ?_, rfl⟩
  rw [split]
  exact (List.Sublist.append_left (List.sublist_cons_self out back) front).subset member

/-- The message picked is picked before every other. -/
theorem getNextMessage_pickedBefore (picked : scheduler.getNextMessage = some (out, next)) :
    ∃ i, scheduler.pendingMessages[i]? = some out ∧
      ∀ j, j ≠ i → j < scheduler.pendingMessages.length →
        PickedBefore scheduler.pendingMessages i j := by
  obtain ⟨front, back, split, _, _, below, above⟩ := getNextMessage_eq_some picked
  have here : scheduler.pendingMessages[front.length]? = some out := by
    rw [split, List.getElem?_append_right le_rfl, Nat.sub_self]
    rfl
  refine ⟨front.length, here, fun j other inside => ?_⟩
  refine ⟨out, scheduler.pendingMessages[j], here, List.getElem?_eq_getElem inside, ?_⟩
  rcases Nat.lt_or_gt_of_ne other with earlier | later
  · left
    apply below
    simp only [split, List.getElem_append_left earlier]
    exact List.getElem_mem earlier
  · have inBack : scheduler.pendingMessages[j] ∈ back := by
      obtain ⟨k, rfl⟩ := Nat.exists_eq_add_of_lt later
      have position : scheduler.pendingMessages[front.length + k + 1]? = back[k]? := by
        rw [split, Nat.add_assoc, List.getElem?_append_right (Nat.le_add_right _ _),
          Nat.add_sub_cancel_left]
        rfl
      rw [List.getElem?_eq_getElem inside] at position
      exact List.mem_of_getElem? position.symm
    rcases lt_or_eq_of_le (above _ inBack) with lower | same
    · exact Or.inl lower
    · exact Or.inr ⟨same, later⟩

end Scheduler

end MessagePassing
