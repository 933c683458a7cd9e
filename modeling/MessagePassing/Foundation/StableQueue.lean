import Mathlib.Data.List.Sort

/-! # Taking out the first largest element

A stable priority queue is a list in order of insertion, from which the first element of
the largest key is taken out. `StableQueue.takeMax_eq_some_iff` says what is taken and what
is left; only the comparisons of the keys matter (`StableQueue.takeMax_congr`). Taking out
everything yields the stable sort by decreasing key (`StableQueue.drain_eq_mergeSort`).
-/

namespace StableQueue

variable {α β K L : Type*} [LinearOrder K] [LinearOrder L]

/-- Take out the first element of the largest key. -/
def takeMax (key : α → K) : List α → Option (α × List α)
  | [] => none
  | a :: rest =>
      match takeMax key rest with
      | none => some (a, rest)
      | some (best, others) =>
          if key a < key best then some (best, a :: others) else some (a, rest)

/-- Take out as many elements, one after the other. -/
def drain (key : α → K) : ℕ → List α → List α
  | 0, _ => []
  | n + 1, list =>
      match takeMax key list with
      | none => []
      | some (best, others) => best :: drain key n others

variable {key : α → K} {list front back others : List α} {best : α}

theorem takeMax_eq_none : takeMax key list = none ↔ list = [] := by
  cases list with
  | nil => exact iff_of_true rfl rfl
  | cons a rest =>
      refine iff_of_false ?_ (List.cons_ne_nil a rest)
      unfold takeMax
      split
      · exact Option.some_ne_none _
      · split <;> exact Option.some_ne_none _

/-- An element is taken out of a nonempty list. -/
theorem exists_takeMax (key : α → K) (nonempty : list ≠ []) :
    ∃ best others, takeMax key list = some (best, others) := by
  cases taken : takeMax key list with
  | none => exact absurd (takeMax_eq_none.mp taken) nonempty
  | some result => exact ⟨result.1, result.2, rfl⟩

theorem takeMax_split (taken : takeMax key list = some (best, others)) :
    ∃ front back, list = front ++ best :: back ∧ others = front ++ back ∧
      (∀ a ∈ front, key a < key best) ∧ ∀ a ∈ back, key a ≤ key best := by
  induction list generalizing best others with
  | nil => cases taken
  | cons a rest ih =>
      cases later : takeMax key rest with
      | none =>
          obtain rfl := takeMax_eq_none.mp later
          simp only [takeMax, Option.some.injEq, Prod.mk.injEq] at taken
          obtain ⟨rfl, rfl⟩ := taken
          exact ⟨[], [], rfl, rfl, fun _ absent => (List.not_mem_nil absent).elim,
            fun _ absent => (List.not_mem_nil absent).elim⟩
      | some result =>
          obtain ⟨front, back, split, left, below, above⟩ := ih later
          simp only [takeMax, later] at taken
          split at taken
          · rename_i higher
            simp only [Option.some.injEq, Prod.mk.injEq] at taken
            obtain ⟨rfl, rfl⟩ := taken
            refine ⟨a :: front, back, congrArg (a :: ·) split, congrArg (a :: ·) left, ?_, above⟩
            exact List.forall_mem_cons.mpr ⟨higher, below⟩
          · rename_i notHigher
            simp only [Option.some.injEq, Prod.mk.injEq] at taken
            obtain ⟨rfl, rfl⟩ := taken
            refine ⟨[], rest, rfl, rfl, fun _ absent => (List.not_mem_nil absent).elim, ?_⟩
            have bound := not_lt.mp notHigher
            rw [split, List.forall_mem_append, List.forall_mem_cons]
            exact ⟨fun b member => (below b member).le.trans bound, bound,
              fun b member => (above b member).trans bound⟩

theorem takeMax_of_split (below : ∀ a ∈ front, key a < key best)
    (above : ∀ a ∈ back, key a ≤ key best) :
    takeMax key (front ++ best :: back) = some (best, front ++ back) := by
  induction front with
  | nil =>
      rw [List.nil_append, List.nil_append, takeMax]
      cases later : takeMax key back with
      | none => rfl
      | some result =>
          obtain ⟨first, last, split, -⟩ := takeMax_split later
          have bound : key result.1 ≤ key best := by
            apply above
            rw [split]
            exact List.mem_append_right _ List.mem_cons_self
          exact if_neg (not_lt.mpr bound)
  | cons a front ih =>
      obtain ⟨higher, rest⟩ := List.forall_mem_cons.mp below
      rw [List.cons_append, takeMax, ih rest]
      exact if_pos higher

/-- **What is taken out.** The element is above those before it and at least as high as those
behind it, which stay in their order. -/
theorem takeMax_eq_some_iff : takeMax key list = some (best, others) ↔
    ∃ front back, list = front ++ best :: back ∧ others = front ++ back ∧
      (∀ a ∈ front, key a < key best) ∧ ∀ a ∈ back, key a ≤ key best := by
  refine ⟨takeMax_split, ?_⟩
  rintro ⟨front, back, rfl, rfl, below, above⟩
  exact takeMax_of_split below above

theorem takeMax_map (key : α → K) (f : β → α) (list : List β) :
    takeMax key (list.map f) = (takeMax (key ∘ f) list).map (Prod.map f (List.map f)) := by
  cases taken : takeMax (key ∘ f) list with
  | none =>
      obtain rfl := takeMax_eq_none.mp taken
      rfl
  | some result =>
      obtain ⟨best, others⟩ := result
      obtain ⟨front, back, rfl, rfl, below, above⟩ := takeMax_split taken
      rw [List.map_append, List.map_cons, takeMax_of_split, ← List.map_append]
      · rfl
      · exact List.forall_mem_map.mpr below
      · exact List.forall_mem_map.mpr above

/-- Keys that compare alike take out alike. -/
theorem takeMax_congr {other : α → L} (alike : ∀ a b, other a < other b ↔ key a < key b)
    (list : List α) : takeMax other list = takeMax key list := by
  cases taken : takeMax key list with
  | none =>
      obtain rfl := takeMax_eq_none.mp taken
      rfl
  | some result =>
      obtain ⟨front, back, split, left, below, above⟩ := takeMax_split taken
      refine takeMax_eq_some_iff.mpr ⟨front, back, split, left, ?_, ?_⟩
      · exact fun a member => (alike _ _).mpr (below a member)
      · exact fun a member => not_lt.mp ((alike _ _).not.mpr (above a member).not_gt)

/-! ## Taking out everything -/

/-- Where an element is inserted in a sorted list. -/
theorem orderedInsert_append {r : α → α → Prop} [DecidableRel r] {a : α}
    (before : ∀ b ∈ front, ¬ r a b) (behind : ∀ b ∈ back, r a b) :
    (front ++ back).orderedInsert r a = front ++ a :: back := by
  induction front with
  | nil =>
      cases back with
      | nil => rfl
      | cons b rest => exact List.orderedInsert_cons_of_le r rest (behind b List.mem_cons_self)
  | cons b front ih =>
      obtain ⟨notBehind, rest⟩ := List.forall_mem_cons.mp before
      rw [List.cons_append, List.orderedInsert_of_not_le r _ notBehind, ih rest, List.cons_append]

/-- Merge sort and insertion sort keep ties in order and so agree, whatever ties there
are. -/
theorem mergeSort_eq_insertionSort (r : α → α → Prop) [DecidableRel r] [Std.Total r]
    [IsTrans α r] (list : List α) :
    list.mergeSort (fun a b => decide (r a b)) = list.insertionSort r := by
  have transitive (a b c : α) (first : decide (r a b) = true) (second : decide (r b c) = true) :
      decide (r a c) = true :=
    decide_eq_true (trans_of r (of_decide_eq_true first) (of_decide_eq_true second))
  have total (a b : α) : (decide (r a b) || decide (r b a)) = true := by
    rw [Bool.or_eq_true, decide_eq_true_eq, decide_eq_true_eq]
    exact total_of r a b
  induction list with
  | nil => exact List.mergeSort_nil
  | cons a list ih =>
      obtain ⟨front, back, split, rest, before⟩ := List.mergeSort_cons transitive total a list
      have sorted := List.pairwise_mergeSort transitive total (a :: list)
      rw [split, List.pairwise_append, List.pairwise_cons] at sorted
      rw [List.insertionSort_cons, ← ih, split, rest, orderedInsert_append]
      · intro b member behind
        have refused := before b member
        rw [decide_eq_true behind] at refused
        cases refused
      · exact fun b member => of_decide_eq_true (sorted.2.1.1 b member)

/-- The first largest element heads the sorted list. -/
theorem insertionSort_of_split (below : ∀ a ∈ front, key a < key best)
    (above : ∀ a ∈ back, key a ≤ key best) :
    (front ++ best :: back).insertionSort (fun a b => key b ≤ key a) =
      best :: (front ++ back).insertionSort fun a b => key b ≤ key a := by
  induction front with
  | nil => exact List.insertionSort_cons_of_forall_rel _ above
  | cons a front ih =>
      obtain ⟨higher, rest⟩ := List.forall_mem_cons.mp below
      rw [List.cons_append, List.insertionSort_cons, ih rest, List.orderedInsert_of_not_le]
      · rfl
      · exact not_le.mpr higher

/-- **Draining.** Taking out all elements yields the stable sort by decreasing key. -/
theorem drain_eq_mergeSort (key : α → K) (list : List α) :
    drain key list.length list = list.mergeSort fun a b => decide (key b ≤ key a) := by
  have total : Std.Total fun a b : α => key b ≤ key a := ⟨fun a b => le_total (key b) (key a)⟩
  have transitive : IsTrans α fun a b => key b ≤ key a := ⟨fun a b c first second =>
    second.trans first⟩
  rw [mergeSort_eq_insertionSort fun a b => key b ≤ key a]
  induction size : list.length generalizing list with
  | zero =>
      obtain rfl := List.eq_nil_of_length_eq_zero size
      rfl
  | succ n ih =>
      obtain ⟨best, others, taken⟩ := exists_takeMax key (List.ne_nil_of_length_eq_add_one size)
      obtain ⟨front, back, rfl, rfl, below, above⟩ := takeMax_split taken
      have shorter : (front ++ back).length = n := by
        rw [List.length_append, List.length_cons] at size
        rw [List.length_append]
        omega
      simp only [drain, taken]
      rw [insertionSort_of_split below above, ih _ shorter]

end StableQueue
