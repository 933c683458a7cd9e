import Mathlib.Order.Lattice
import Mathlib.Order.RelClasses
import Mathlib.Data.List.Basic

/-! # Scanning a list for its first maximum

A comparator is a Boolean function `less`. The scan keeps the index of the best
element so far and moves it to a later element only when the best is strictly
less. For a strict weak order the result is the first maximal element: the list
splits around it into elements strictly below it and elements it is not below
(`Selection.bestIndex_split`).
-/

namespace Selection

variable {α β : Type*}

/-- Scan the remaining elements, the first of which has index `index`. -/
def bestIndexFrom (less : α → α → Bool) (best : α) (bestIdx index : ℕ) : List α → ℕ
  | [] => bestIdx
  | current :: rest =>
      if less best current then bestIndexFrom less current index (index + 1) rest
      else bestIndexFrom less best bestIdx (index + 1) rest

/-- The index of the first maximal element; zero for the empty list. -/
def bestIndex (less : α → α → Bool) : List α → ℕ
  | [] => 0
  | first :: rest => bestIndexFrom less first 0 1 rest

theorem bestIndexFrom_map (less : β → β → Bool) (f : α → β) (best : α) (bestIdx index : ℕ)
    (list : List α) :
    bestIndexFrom less (f best) bestIdx index (list.map f) =
      bestIndexFrom (fun a b => less (f a) (f b)) best bestIdx index list := by
  induction list generalizing best bestIdx index with
  | nil => rfl
  | cons current rest ih =>
      simp only [List.map_cons, bestIndexFrom]
      split
      · exact ih current index (index + 1)
      · exact ih best bestIdx (index + 1)

/-- The scan of an image compares through the map. -/
theorem bestIndex_map (less : β → β → Bool) (f : α → β) (list : List α) :
    bestIndex less (list.map f) = bestIndex (fun a b => less (f a) (f b)) list := by
  cases list with
  | nil => rfl
  | cons first rest => exact bestIndexFrom_map less f first 0 1 rest

/-- A comparator comparing the values of a rank in a linear order is a strict weak
order. -/
theorem isStrictWeakOrder_of_rank {less : α → α → Bool} [LinearOrder β] (rank : α → β)
    (compares : ∀ a b, less a b = true ↔ rank a < rank b) :
    IsStrictWeakOrder α (fun a b => less a b = true) where
  irrefl a below := lt_irrefl _ ((compares a a).mp below)
  trans a b c first second :=
    (compares a c).mpr (((compares a b).mp first).trans ((compares b c).mp second))
  incomp_trans a b c first second := by
    simp only [compares, not_lt] at first second ⊢
    exact ⟨second.1.trans first.1, first.2.trans second.2⟩

variable {less : α → α → Bool} [order : IsStrictWeakOrder α (fun a b => less a b = true)]

/-- An element not above another is below whatever that other is below. -/
theorem less_of_not_less_of_less {a b c : α} (notAbove : ¬ less b a = true)
    (below : less b c = true) : less a c = true := by
  by_contra notBelow
  have notReverse : ¬ less c a = true := fun above => notAbove (order.trans b c a below above)
  by_cases reverse : less a b = true
  · exact notBelow (order.trans a b c reverse below)
  · exact (order.incomp_trans b a c ⟨notAbove, reverse⟩ ⟨notBelow, notReverse⟩).1 below

/-- What the scan maintains: elements before the best are strictly below it, and
it is not below the elements scanned since. -/
theorem bestIndexFrom_split (front middle rest : List α) (best : α)
    (before : ∀ a ∈ front, less a best = true) (since : ∀ a ∈ middle, ¬ less best a = true) :
    ∃ front' best' back', front ++ best :: (middle ++ rest) = front' ++ best' :: back' ∧
      bestIndexFrom less best front.length (front.length + 1 + middle.length) rest =
        front'.length ∧
      (∀ a ∈ front', less a best' = true) ∧ ∀ a ∈ back', ¬ less best' a = true := by
  induction rest generalizing front middle best with
  | nil =>
      refine ⟨front, best, middle, ?_, rfl, before, since⟩
      rw [List.append_nil]
  | cons current rest ih =>
      by_cases better : less best current = true
      · have earlier : ∀ a ∈ front ++ best :: middle, less a current = true := by
          intro a member
          rcases List.mem_append.mp member with inFront | inTail
          · exact order.trans a best current (before a inFront) better
          · rcases List.mem_cons.mp inTail with rfl | inMiddle
            · exact better
            · exact less_of_not_less_of_less (since a inMiddle) better
        obtain ⟨front', best', back', split, index, below, above⟩ :=
          ih (front ++ best :: middle) [] current earlier (fun a absent => by cases absent)
        refine ⟨front', best', back', ?_, ?_, below, above⟩
        · rw [← split]
          simp only [List.append_assoc, List.cons_append, List.nil_append]
        · rw [← index]
          simp only [bestIndexFrom, better, ↓reduceIte, List.length_append, List.length_cons,
            List.length_nil]
          congr 1 <;> omega
      · have later : ∀ a ∈ middle ++ [current], ¬ less best a = true := by
          intro a member
          rcases List.mem_append.mp member with inMiddle | last
          · exact since a inMiddle
          · exact List.mem_singleton.mp last ▸ better
        obtain ⟨front', best', back', split, index, below, above⟩ :=
          ih front (middle ++ [current]) best before later
        refine ⟨front', best', back', ?_, ?_, below, above⟩
        · rw [← split]
          simp only [List.append_assoc, List.cons_append, List.nil_append]
        · rw [← index]
          simp only [bestIndexFrom, better, Bool.false_eq_true, ↓reduceIte, List.length_append,
            List.length_cons, List.length_nil]
          congr 1

variable (less) in
/-- **The first maximum.** The scan splits a nonempty list into elements strictly
below the chosen one, the chosen one, and elements it is not below. -/
theorem bestIndex_split {list : List α} (nonempty : list ≠ []) :
    ∃ front best back, list = front ++ best :: back ∧ bestIndex less list = front.length ∧
      (∀ a ∈ front, less a best = true) ∧ ∀ a ∈ back, ¬ less best a = true := by
  cases list with
  | nil => exact absurd rfl nonempty
  | cons first rest =>
      exact bestIndexFrom_split [] [] rest first (fun a absent => by cases absent)
        (fun a absent => by cases absent)

variable (less) in
/-- **Picking the first maximum.** The element at the chosen index, what is left
without it, and how the others compare with it. -/
theorem bestIndex_pick {list : List α} (nonempty : list ≠ []) :
    ∃ front best back, list = front ++ best :: back ∧
      list[bestIndex less list]? = some best ∧
      list.eraseIdx (bestIndex less list) = front ++ back ∧
      (∀ a ∈ front, less a best = true) ∧ ∀ a ∈ back, ¬ less best a = true := by
  obtain ⟨front, best, back, split, index, below, above⟩ := bestIndex_split less nonempty
  refine ⟨front, best, back, split, ?_, ?_, below, above⟩
  · rw [index, split, List.getElem?_append_right (Nat.le_refl _), Nat.sub_self]
    rfl
  · rw [index, split, List.eraseIdx_append_of_length_le (Nat.le_refl _), Nat.sub_self]
    rfl

/-- The chosen element is maximal in the whole list. -/
theorem maximal_of_split {front back : List α} {best : α}
    (below : ∀ a ∈ front, less a best = true) (above : ∀ a ∈ back, ¬ less best a = true) :
    ∀ a ∈ front ++ best :: back, ¬ less best a = true := by
  intro a member
  rcases List.mem_append.mp member with inFront | inTail
  · exact fun reverse => order.irrefl a (order.trans a best a (below a inFront) reverse)
  · rcases List.mem_cons.mp inTail with rfl | inBack
    · exact order.irrefl a
    · exact above a inBack

end Selection
