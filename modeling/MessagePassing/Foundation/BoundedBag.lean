import Mathlib.Algebra.Order.Group.Multiset
import Mathlib.Data.List.Induction
import Mathlib.Data.List.Perm.Subperm
import Mathlib.Data.Multiset.Basic
import Mathlib.Data.Multiset.UnionInter

/-! # Bounded priority multisets

What a bounded priority queue is for: a multiset of at most `capacity` elements from
which an element of maximal rank is removed. A step is labelled with what happened.
A run never exceeds the capacity (`BoundedBag.Run.card_le`) and loses or invents
nothing (`BoundedBag.Run.conserve`). While an element waits, those that overtake it
are the elements of at least its rank inserted meanwhile, up to the fewer than
`capacity` still stored (`BoundedBag.Run.overtakers_le_rivals`,
`BoundedBag.Run.rivals_lt`).
-/

namespace BoundedBag

variable {α κ : Type*} [LinearOrder κ]

/-- What happened to the multiset. -/
inductive Event (α : Type*)
  | inserted (a : α)
  | refused (a : α)
  | removed (a : α)
  | foundEmpty
  | listed (contents : List α)
  deriving DecidableEq

namespace Event

def insertion : Event α → Option α
  | inserted a => some a
  | _ => none

def removal : Event α → Option α
  | removed a => some a
  | _ => none

end Event

/-- The elements inserted, in order. -/
def insertions (events : List (Event α)) : List α := events.filterMap Event.insertion

/-- The elements removed, in order. -/
def removals (events : List (Event α)) : List α := events.filterMap Event.removal

/-- One step: a full multiset refuses, another inserts; an element of maximal rank is
removed, unless there is none; the contents are listed in non-increasing order. -/
inductive Step (rank : α → κ) (capacity : ℕ) :
    Multiset α → Event α → Multiset α → Prop
  | insert {bag} (a : α) : bag.card < capacity → Step rank capacity bag (.inserted a) (a ::ₘ bag)
  | refuse {bag} (a : α) : bag.card = capacity → Step rank capacity bag (.refused a) bag
  | remove {bag} (a : α) : (∀ b ∈ bag, rank b ≤ rank a) →
      Step rank capacity (a ::ₘ bag) (.removed a) bag
  | findEmpty : Step rank capacity 0 .foundEmpty 0
  | list (contents : List α) : contents.Pairwise (fun a b => rank b ≤ rank a) →
      Step rank capacity contents (.listed contents) contents

/-- A run through a list of events. -/
inductive Run (rank : α → κ) (capacity : ℕ) :
    Multiset α → List (Event α) → Multiset α → Prop
  | nil {bag} : Run rank capacity bag [] bag
  | snoc {bag middle last events event} : Run rank capacity bag events middle →
      Step rank capacity middle event last → Run rank capacity bag (events ++ [event]) last

@[simp] theorem insertions_append (first second : List (Event α)) :
    insertions (first ++ second) = insertions first ++ insertions second :=
  List.filterMap_append

@[simp] theorem removals_append (first second : List (Event α)) :
    removals (first ++ second) = removals first ++ removals second :=
  List.filterMap_append

variable {rank : α → κ} {capacity : ℕ} {bag last : Multiset α} {events : List (Event α)}
  {event : Event α}

theorem Step.card_le (step : Step rank capacity bag event last) (bounded : bag.card ≤ capacity) :
    last.card ≤ capacity := by
  cases step with
  | insert a room =>
      rw [Multiset.card_cons]
      exact room
  | refuse a full => exact bounded
  | remove a maximal =>
      rw [Multiset.card_cons] at bounded
      exact (Nat.le_succ _).trans bounded
  | findEmpty => exact bounded
  | list contents sorted => exact bounded

/-- What is inserted is added, what is removed is taken out, and nothing else moves. -/
theorem Step.conserve (step : Step rank capacity bag event last) :
    bag + insertions [event] = last + removals [event] := by
  cases step with
  | insert a room =>
      change bag + {a} = a ::ₘ bag + 0
      rw [add_zero, add_comm, Multiset.singleton_add]
  | refuse a full => rfl
  | remove a maximal =>
      change a ::ₘ last + 0 = last + {a}
      rw [add_zero, add_comm, Multiset.singleton_add]
  | findEmpty => rfl
  | list contents sorted => rfl

/-- A run never exceeds the capacity. -/
theorem Run.card_le (run : Run rank capacity bag events last) (bounded : bag.card ≤ capacity) :
    last.card ≤ capacity := by
  induction run with
  | nil => exact bounded
  | snoc _ step ih => exact step.card_le ih

/-- What was there or inserted is there or was removed. -/
theorem Run.conserve (run : Run rank capacity bag events last) :
    bag + insertions events = last + removals events := by
  induction run with
  | nil => rfl
  | @snoc middle last events event _ step ih =>
      rw [insertions_append, removals_append, ← Multiset.coe_add, ← Multiset.coe_add, ← add_assoc,
        ih, add_right_comm, step.conserve, add_right_comm, add_assoc]

theorem Run.last_step (run : Run rank capacity bag (events ++ [event]) last) :
    ∃ middle, Run rank capacity bag events middle ∧ Step rank capacity middle event last := by
  generalize whole : events ++ [event] = longer at run
  cases run with
  | nil => exact absurd whole (List.append_ne_nil_of_right_ne_nil _ (List.cons_ne_nil _ _))
  | snoc earlier step =>
      obtain ⟨rfl, same⟩ := List.append_inj' whole rfl
      obtain rfl := List.singleton_inj.mp same
      exact ⟨_, earlier, step⟩

theorem Run.split {first second : List (Event α)}
    (run : Run rank capacity bag (first ++ second) last) :
    ∃ middle, Run rank capacity bag first middle ∧ Run rank capacity middle second last := by
  induction second using List.reverseRecOn generalizing last with
  | nil => exact ⟨last, List.append_nil first ▸ run, .nil⟩
  | append_singleton front event ih =>
      rw [← List.append_assoc] at run
      obtain ⟨next, earlier, step⟩ := run.last_step
      obtain ⟨middle, before, after⟩ := ih earlier
      exact ⟨middle, before, after.snoc step⟩

/-! ## Overtaking -/

/-- A stretch of the events right after `a` was inserted, during which `a` was not
removed. -/
def Waits (events : List (Event α)) (a : α) (wait : List (Event α)) : Prop :=
  Event.removed a ∉ wait ∧ ∃ before after, events = before ++ .inserted a :: (wait ++ after)

/-- How many elements were both inserted and removed meanwhile. -/
def overtakers [DecidableEq α] (wait : List (Event α)) : ℕ :=
  (removals wait).countP fun b => decide (b ∈ insertions wait)

/-- How many elements not ranked below `a` were inserted meanwhile. -/
def rivals (rank : α → κ) (a : α) (wait : List (Event α)) : ℕ :=
  (insertions wait).countP fun b => decide (rank a ≤ rank b)

/-- An element inserted and removed at once overtakes. -/
theorem overtakers_append [DecidableEq α] (wait : List (Event α)) (a : α) :
    overtakers wait + 1 ≤ overtakers (wait ++ [.inserted a, .removed a]) := by
  have inserted : insertions [Event.inserted a, .removed a] = [a] := rfl
  have removed : removals [Event.inserted a, .removed a] = [a] := rfl
  unfold overtakers
  rw [insertions_append, removals_append, inserted, removed, List.countP_append,
    List.countP_singleton, if_pos (decide_eq_true (List.mem_append_right _ List.mem_cons_self))]
  refine Nat.add_le_add_right (List.countP_mono_left fun b _ earlier => ?_) 1
  exact decide_eq_true (List.mem_append_left _ (of_decide_eq_true earlier))

/-- An element that is not removed stays, and nothing ranked below it is removed. -/
theorem Step.waiting {a : α} (step : Step rank capacity bag event last)
    (stays : event ≠ .removed a) (here : a ∈ bag) :
    a ∈ last ∧ ∀ b ∈ removals [event], rank a ≤ rank b := by
  cases step with
  | insert b room =>
      exact ⟨Multiset.mem_cons_of_mem here, fun _ absent => absurd absent List.not_mem_nil⟩
  | refuse b full => exact ⟨here, fun _ absent => absurd absent List.not_mem_nil⟩
  | remove b maximal =>
      have other : a ≠ b := fun same => stays (congrArg Event.removed same.symm)
      have remains := (Multiset.mem_cons.mp here).resolve_left other
      exact ⟨remains, fun c member => List.mem_singleton.mp member ▸ maximal a remains⟩
  | findEmpty => exact absurd here (Multiset.notMem_zero a)
  | list contents sorted => exact ⟨here, fun _ absent => absurd absent List.not_mem_nil⟩

theorem Run.waiting {a : α} (run : Run rank capacity bag events last)
    (stays : Event.removed a ∉ events) (here : a ∈ bag) :
    a ∈ last ∧ ∀ b ∈ removals events, rank a ≤ rank b := by
  induction run with
  | nil => exact ⟨here, fun _ absent => absurd absent List.not_mem_nil⟩
  | snoc _ step ih =>
      rw [List.mem_append, List.mem_singleton, not_or] at stays
      obtain ⟨waiting, above⟩ := ih stays.1
      obtain ⟨remains, last⟩ := step.waiting (fun same => stays.2 same.symm) waiting
      refine ⟨remains, fun b member => ?_⟩
      rw [removals_append, List.mem_append] at member
      exact member.elim (above b) (last b)

/-- What a wait starts from and leads to, with no element occurring twice. -/
theorem Run.exists_wait {a : α} {wait : List (Event α)} (run : Run rank capacity 0 events last)
    (distinct : (insertions events).Nodup) (waits : Waits events a wait) :
    ∃ start stop : Multiset α, (∀ b ∈ removals wait, rank a ≤ rank b) ∧ a ∈ stop ∧
      stop.card ≤ capacity ∧ (a ::ₘ start + insertions wait).Nodup ∧
      a ::ₘ start + insertions wait = stop + removals wait := by
  obtain ⟨stays, before, after, rfl⟩ := waits
  rw [← List.singleton_append, ← List.append_assoc] at run
  obtain ⟨_, first, rest⟩ := run.split
  obtain ⟨start, earlier, step⟩ := first.last_step
  obtain ⟨stop, meanwhile, -⟩ := rest.split
  cases step with
  | insert _ room =>
      obtain ⟨remains, above⟩ := meanwhile.waiting stays (Multiset.mem_cons_self a start)
      refine ⟨start, stop, above, remains, meanwhile.card_le ?_, ?_, meanwhile.conserve⟩
      · rw [Multiset.card_cons]
        exact room
      · have stored : start ≤ insertions before := by
          have conserved := earlier.conserve
          rw [zero_add] at conserved
          rw [conserved]
          exact Multiset.le_add_right start _
        have inserted : insertions (before ++ .inserted a :: (wait ++ after)) =
            insertions before ++ a :: (insertions wait ++ insertions after) := by
          rw [insertions_append, ← insertions_append wait after]
          rfl
        rw [inserted] at distinct
        have kept : (insertions before ++ a :: insertions wait).Nodup :=
          distinct.sublist (((List.sublist_append_left _ _).cons_cons a).append_left _)
        refine Multiset.nodup_of_le ?_ (Multiset.coe_nodup.mpr kept)
        rw [← Multiset.coe_add, ← Multiset.cons_coe, Multiset.cons_add, ← Multiset.add_cons]
        exact Multiset.add_le_add_right stored

/-- Every overtaker is one of the rivals. -/
theorem Run.overtakers_le_rivals [DecidableEq α] {a : α} {wait : List (Event α)}
    (run : Run rank capacity 0 events last) (distinct : (insertions events).Nodup)
    (waits : Waits events a wait) : overtakers wait ≤ rivals rank a wait := by
  obtain ⟨start, stop, above, -, -, nodup, conserved⟩ := run.exists_wait distinct waits
  have removedOnce : (removals wait).Nodup := by
    rw [conserved] at nodup
    exact Multiset.coe_nodup.mp (Multiset.nodup_add.mp nodup).2.1
  unfold overtakers rivals
  rw [List.countP_eq_length_filter, List.countP_eq_length_filter]
  refine (List.subperm_of_subset (removedOnce.filter _) fun b member => ?_).length_le
  obtain ⟨removed, inserted⟩ := List.mem_filter.mp member
  exact List.mem_filter.mpr ⟨of_decide_eq_true inserted, decide_eq_true (above b removed)⟩

/-- Every rival is an overtaker or still stored beside the waiting element. -/
theorem Run.rivals_lt [DecidableEq α] {a : α} {wait : List (Event α)}
    (run : Run rank capacity 0 events last) (distinct : (insertions events).Nodup)
    (waits : Waits events a wait) : rivals rank a wait < overtakers wait + capacity := by
  obtain ⟨start, stop, above, remains, bounded, nodup, conserved⟩ := run.exists_wait distinct waits
  have insertedOnce : (insertions wait).Nodup :=
    Multiset.coe_nodup.mp (Multiset.nodup_add.mp nodup).2.1
  have stored : (stop.erase a).card < capacity := by
    have := Multiset.card_erase_add_one remains
    omega
  have covered : (insertions wait).filter (fun b => decide (rank a ≤ rank b)) ⊆
      (removals wait).filter (fun b => decide (b ∈ insertions wait)) ++ (stop.erase a).toList := by
    intro b member
    obtain ⟨inserted, -⟩ := List.mem_filter.mp member
    have somewhere : b ∈ stop + removals wait := by
      rw [← conserved]
      exact Multiset.mem_add.mpr (Or.inr inserted)
    have other : b ≠ a := by
      rintro rfl
      exact (Multiset.disjoint_left.mp (Multiset.nodup_add.mp nodup).2.2)
        (Multiset.mem_cons_self b start) inserted
    rw [List.mem_append, Multiset.mem_toList, Multiset.mem_erase_of_ne other]
    rcases Multiset.mem_add.mp somewhere with kept | removed
    · exact Or.inr kept
    · exact Or.inl (List.mem_filter.mpr ⟨removed, decide_eq_true inserted⟩)
  have counted := (List.subperm_of_subset (insertedOnce.filter _) covered).length_le
  rw [List.length_append, Multiset.length_toList] at counted
  unfold overtakers rivals
  rw [List.countP_eq_length_filter, List.countP_eq_length_filter]
  omega

end BoundedBag
