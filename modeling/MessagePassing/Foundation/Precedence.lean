import Mathlib.Data.List.Perm.Subperm

/-! # Effects after their causes

In a log, causes and effects have keys, and each effect has to stand behind a cause with
its key (`Precedence.Caused`). A log that only grows keeps the property as long as what is
appended has its causes in the log; and where no two effects have the same key, there are
no more effects than causes (`Precedence.Caused.countP_le`).
-/

namespace Precedence

variable {α κ : Type*} {cause effect : α → Prop} {key : α → κ} {log more : List α} {entry : α}

/-- Every effect in the log stands behind a cause with the same key. -/
def Caused (cause effect : α → Prop) (key : α → κ) (log : List α) : Prop :=
  ∀ before entry after, log = before ++ entry :: after → effect entry →
    ∃ earlier ∈ before, cause earlier ∧ key earlier = key entry

theorem caused_nil : Caused cause effect key [] := by
  intro before entry after split
  exact absurd split (List.append_ne_nil_of_right_ne_nil before (List.cons_ne_nil entry after)).symm

/-- A log is as good as any of its beginnings. -/
theorem Caused.of_append (caused : Caused cause effect key (log ++ more)) :
    Caused cause effect key log := by
  intro before entry after split
  apply caused before entry (after ++ more)
  rw [split, List.append_assoc, List.cons_append]

theorem caused_append_singleton :
    Caused cause effect key (log ++ [entry]) ↔ Caused cause effect key log ∧
      (effect entry → ∃ earlier ∈ log, cause earlier ∧ key earlier = key entry) := by
  refine ⟨?_, ?_⟩
  · exact fun caused => ⟨caused.of_append, caused log entry [] rfl⟩
  · rintro ⟨caused, last⟩ before other after split isEffect
    rcases List.eq_nil_or_concat after with rfl | ⟨front, final, rfl⟩
    · obtain ⟨rfl, same⟩ := List.append_inj' split rfl
      obtain rfl := List.singleton_inj.mp same
      exact last isEffect
    · rw [List.concat_eq_append, ← List.cons_append, ← List.append_assoc] at split
      exact caused before other front (List.append_inj' split rfl).1 isEffect

/-- What is no effect may be written at any time. -/
theorem Caused.append (caused : Caused cause effect key log)
    (silent : ∀ entry ∈ more, ¬ effect entry) : Caused cause effect key (log ++ more) := by
  induction more generalizing log with
  | nil =>
      rw [List.append_nil]
      exact caused
  | cons entry rest ih =>
      rw [← List.singleton_append, ← List.append_assoc]
      apply ih
      · exact caused_append_singleton.mpr ⟨caused, fun isEffect =>
          absurd isEffect (silent entry List.mem_cons_self)⟩
      · exact fun other member => silent other (List.mem_cons_of_mem entry member)

/-- Every effect has its cause in the log. -/
theorem Caused.exists_cause (caused : Caused cause effect key log) (member : entry ∈ log)
    (isEffect : effect entry) : ∃ earlier ∈ log, cause earlier ∧ key earlier = key entry := by
  obtain ⟨before, after, rfl⟩ := List.append_of_mem member
  obtain ⟨earlier, here, found⟩ := caused before entry after rfl isEffect
  exact ⟨earlier, List.mem_append_left _ here, found⟩

/-- **Counting.** Effects with distinct keys are no more than the causes. -/
theorem Caused.countP_le [DecidablePred cause] [DecidablePred effect]
    (caused : Caused cause effect key log)
    (distinct : ((log.filter fun entry => effect entry).map key).Nodup) :
    (log.countP fun entry => effect entry) ≤ log.countP fun entry => cause entry := by
  have included : (log.filter fun entry => effect entry).map key ⊆
      (log.filter fun entry => cause entry).map key := by
    intro k member
    obtain ⟨entry, filtered, rfl⟩ := List.mem_map.mp member
    obtain ⟨inside, isEffect⟩ := List.mem_filter.mp filtered
    obtain ⟨earlier, here, isCause, same⟩ :=
      caused.exists_cause inside (of_decide_eq_true isEffect)
    exact List.mem_map.mpr
      ⟨earlier, List.mem_filter.mpr ⟨here, decide_eq_true isCause⟩, same⟩
  have shorter := (distinct.subperm included).length_le
  rw [List.length_map, List.length_map] at shorter
  rw [List.countP_eq_length_filter, List.countP_eq_length_filter]
  exact shorter

end Precedence
