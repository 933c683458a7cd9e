import MessagePassing.Scheduler.Order

/-! # What can still be picked before a message

A pending message waits for those standing before it and for those behind it that it does
not dominate (`Scheduler.rivals`). Additions and aging rounds bring no new one, and every
pick that leaves the message behind takes one of them (`Scheduler.rivals_pick`). So a message
at the highest priority is skipped no more often than other messages pend, however many
are added meanwhile (`Scheduler.Bounded`).
-/

namespace MessagePassing

variable {ι : Type}

instance (a b : Message ι) : Decidable (a.Dominates b) := inferInstanceAs (Decidable (_ ∨ _))

namespace Scheduler

/-- How many messages can still be picked before one that stands between two parts of the
pending list. -/
def rivals (front : List (Message ι)) (msg : Message ι) (back : List (Message ι)) : ℕ :=
  front.length + back.countP fun other => decide ¬ msg.Dominates other

variable {scheduler next : Scheduler ι} {front back : List (Message ι)} {msg out : Message ι}

theorem rivals_lt (split : scheduler.pendingMessages = front ++ msg :: back) :
    rivals front msg back < scheduler.pendingMessages.length := by
  have counted := List.countP_le_length (p := fun other => decide ¬ msg.Dominates other) (l := back)
  rw [split, List.length_append, List.length_cons, rivals]
  omega

/-- Rivals stay as they are when every message changes and dominated ones stay so. -/
theorem rivals_map_le {f : Message ι → Message ι}
    (keeps : ∀ other ∈ back, msg.Dominates other → (f msg).Dominates (f other)) :
    rivals (front.map f) (f msg) (back.map f) ≤ rivals front msg back := by
  have counted : (back.map f).countP (fun other => decide ¬ (f msg).Dominates other) ≤
      back.countP fun other => decide ¬ msg.Dominates other := by
    rw [List.countP_map]
    apply List.countP_mono_left
    intro other member free
    simp only [Function.comp_apply, decide_eq_true_eq] at free ⊢
    exact fun dominates => free (keeps other member dominates)
  rw [rivals, rivals, List.length_map]
  omega

/-- A message added behind one that dominates it is no rival. -/
theorem rivals_add {added : Message ι} (dominates : msg.Dominates added) :
    rivals front msg (back ++ [added]) = rivals front msg back := by
  have absent : [added].countP (fun other => decide ¬ msg.Dominates other) = 0 := by
    simp only [List.countP_singleton, dominates, not_true_eq_false, decide_false,
      Bool.false_eq_true, ↓reduceIte]
  rw [rivals, rivals, List.countP_append, absent, Nat.add_zero]

theorem rivals_skip_le :
    rivals (front.map Message.skip) msg.skip (back.map Message.skip) ≤ rivals front msg back :=
  rivals_map_le fun _ _ => Message.Dominates.skip

theorem rivals_age_le (nonneg : 0 ≤ msg.agingCounter) :
    rivals (front.map Message.age) msg.age (back.map Message.age) ≤ rivals front msg back :=
  rivals_map_le fun _ _ dominates => dominates.age nonneg

/-- A message that stands before the one picked does not dominate it. -/
private theorem rivals_picked {behind : List (Message ι)} (lower : msg.score < out.score) :
    rivals front msg (behind ++ back) + 1 ≤ rivals front msg (behind ++ out :: back) := by
  have free : ¬ msg.Dominates out := fun dominates => lower.not_ge dominates.score_le
  have counted : (out :: back).countP (fun other => decide ¬ msg.Dominates other) =
      back.countP (fun other => decide ¬ msg.Dominates other) + 1 :=
    List.countP_cons_of_pos (decide_eq_true free)
  rw [rivals, rivals, List.countP_append, List.countP_append, counted]
  omega

/-- A message that stands before another is one of its rivals. -/
private theorem rivals_before (front behind : List (Message ι)) (out msg : Message ι)
    (back : List (Message ι)) :
    rivals (front ++ behind) msg back + 1 = rivals (front ++ out :: behind) msg back := by
  rw [rivals, rivals, List.length_append, List.length_append, List.length_cons]
  omega

/-- **A pick takes a rival.** A pending message is picked, or it is skipped and has one rival
less. -/
theorem rivals_pick (picked : scheduler.getNextMessage = some (out, next))
    (split : scheduler.pendingMessages = front ++ msg :: back) :
    msg = out ∨ ∃ before after, next.pendingMessages = before ++ msg.skip :: after ∧
      rivals before msg.skip after + 1 ≤ rivals front msg back := by
  obtain ⟨first, second, parted, rest, -, below, -⟩ := getNextMessage_eq_some picked
  rcases List.append_eq_append_iff.mp (split.symm.trans parted) with
    ⟨between, inFirst, same⟩ | ⟨between, inFront, same⟩
  · rcases between with - | ⟨head, between⟩
    · exact Or.inl (List.cons.inj same).1
    · obtain ⟨rfl, rfl⟩ := List.cons.inj same
      refine Or.inr ⟨front.map .skip, (between ++ second).map .skip, ?_, ?_⟩
      · rw [rest, inFirst, List.append_assoc, List.map_append, List.cons_append, List.map_cons]
      · have lower : msg.score < out.score :=
          below msg (inFirst ▸ List.mem_append_right front List.mem_cons_self)
        exact (Nat.succ_le_succ rivals_skip_le).trans (rivals_picked lower)
  · rcases between with - | ⟨head, between⟩
    · exact Or.inl (List.cons.inj same).1.symm
    · rw [List.cons_append] at same
      obtain ⟨rfl, rfl⟩ := List.cons.inj same
      refine Or.inr ⟨(first ++ between).map .skip, back.map .skip, ?_, ?_⟩
      · rw [rest, ← List.append_assoc, List.map_append, List.map_cons]
      · rw [inFront, ← rivals_before]
        exact Nat.succ_le_succ rivals_skip_le

/-- A message left behind by a pick was skipped, and had one rival more. -/
theorem rivals_picked_from (picked : scheduler.getNextMessage = some (out, next))
    (split : next.pendingMessages = front ++ msg :: back) :
    ∃ before earlier after, scheduler.pendingMessages = before ++ earlier :: after ∧
      msg = earlier.skip ∧ rivals front msg back + 1 ≤ rivals before earlier after := by
  obtain ⟨first, second, parted, rest, -, below, -⟩ := getNextMessage_eq_some picked
  obtain ⟨kept, tail, remain, rfl, mapped⟩ := List.map_eq_append_iff.mp (rest.symm.trans split)
  obtain ⟨earlier, later, rfl, rfl, rfl⟩ := List.map_eq_cons_iff.mp mapped
  rcases List.append_eq_append_iff.mp remain with ⟨between, rfl, rfl⟩ | ⟨between, rfl, same⟩
  · refine ⟨first ++ out :: between, earlier, later, ?_, rfl, ?_⟩
    · rw [parted, List.append_assoc, List.cons_append]
    · rw [← rivals_before]
      exact Nat.succ_le_succ rivals_skip_le
  · rcases between with - | ⟨head, between⟩
    · rw [List.nil_append] at same
      refine ⟨kept ++ [out], earlier, later, ?_, rfl, ?_⟩
      · rw [parted, List.append_nil, ← same, List.append_assoc, List.singleton_append]
      · rw [← rivals_before, List.append_nil]
        exact Nat.succ_le_succ rivals_skip_le
    · obtain ⟨rfl, rfl⟩ := List.cons.inj same
      refine ⟨kept, earlier, between ++ out :: second, ?_, rfl, ?_⟩
      · rw [parted, List.append_assoc, List.cons_append]
      · have lower : earlier.score < out.score :=
          below earlier (List.mem_append_right kept List.mem_cons_self)
        exact (Nat.succ_le_succ rivals_skip_le).trans (rivals_picked lower)

/-! ## How often the most urgent messages are skipped -/

/-- A message at the highest priority was skipped, and can still be, less often than `most`
in all. -/
def Bounded (most : ℕ) (scheduler : Scheduler ι) : Prop :=
  ∀ front msg back, scheduler.pendingMessages = front ++ msg :: back → msg.priority = .high →
    msg.agingCounter + rivals front msg back < most

variable {most : ℕ}

theorem Bounded.new : (Scheduler.new : Scheduler ι).Bounded most := by
  intro front msg back split
  cases front <;> cases split

theorem Bounded.addMessage (bounded : scheduler.Bounded most) {added : Message ι}
    (nonneg : ∀ msg ∈ scheduler.pendingMessages, 0 ≤ msg.agingCounter)
    (fresh : added.agingCounter = 0)
    (room : (scheduler.addMessage added).pendingMessages.length ≤ most) :
    (scheduler.addMessage added).Bounded most := by
  intro front msg back split high
  rw [addMessage_pendingMessages] at split
  rcases List.eq_nil_or_concat' back with rfl | ⟨behind, last, rfl⟩
  · obtain ⟨rfl, same⟩ := List.append_inj' split rfl
    obtain rfl := List.singleton_inj.mp same
    rw [addMessage_pendingMessages, List.length_append, List.length_singleton] at room
    rw [fresh, rivals, List.countP_nil]
    omega
  · rw [← List.cons_append, ← List.append_assoc] at split
    obtain ⟨before, same⟩ := List.append_inj' split rfl
    obtain rfl := List.singleton_inj.mp same
    have member : msg ∈ scheduler.pendingMessages :=
      before ▸ List.mem_append_right front List.mem_cons_self
    have level : added.priority.toInt ≤ msg.priority.toInt := by
      rw [high]
      exact added.priority.toInt_bounds.2
    rw [rivals_add (Message.dominates_of_priority_le level (nonneg msg member) fresh)]
    exact bounded front msg behind before high

theorem Bounded.getNextMessage (bounded : scheduler.Bounded most)
    (picked : scheduler.getNextMessage = some (out, next)) : next.Bounded most := by
  intro front msg back split high
  obtain ⟨before, earlier, after, found, rfl, less⟩ := rivals_picked_from picked split
  have := bounded before earlier after found high
  rw [Message.skip_agingCounter]
  omega

theorem Bounded.applyAging (bounded : scheduler.Bounded most)
    (nonneg : ∀ msg ∈ scheduler.pendingMessages, 0 ≤ msg.agingCounter)
    (room : scheduler.pendingMessages.length ≤ most) : scheduler.applyAging.Bounded most := by
  intro front msg back split high
  rw [applyAging_pendingMessages] at split
  obtain ⟨before, tail, found, rfl, mapped⟩ := List.map_eq_append_iff.mp split
  obtain ⟨earlier, after, rfl, rfl, rfl⟩ := List.map_eq_cons_iff.mp mapped
  have member : earlier ∈ scheduler.pendingMessages :=
    found ▸ List.mem_append_right before List.mem_cons_self
  have fewer : rivals (before.map .age) earlier.age (after.map .age) ≤
      rivals before earlier after := rivals_age_le (nonneg earlier member)
  by_cases boosted : earlier.Boosted
  · have few := rivals_lt found
    have reset : earlier.age.agingCounter = 0 := (Message.age_of_boosted boosted).2
    rw [reset]
    omega
  · rw [Message.age_of_not_boosted boosted] at high fewer ⊢
    have := bounded before earlier after found high
    omega

end Scheduler

end MessagePassing
