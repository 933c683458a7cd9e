import MessagePassing.Foundation.Selection
import Mathlib.Algebra.Order.Group.Multiset

/-! # The contract of a priority queue

`PriorityQueue α less` is a deterministic container ordered by a comparator. Its
contents are a multiset; pushing inserts one element, and, provided the
comparator is a strict weak order, the top is a maximal element and popping
removes exactly the top. Nothing else is assumed, in particular not which of
several incomparable maximal elements is the top. Popping until the container is
empty lists the contents in non-increasing order
(`PriorityQueue.coe_drain`, `PriorityQueue.pairwise_drain`). The list scanned for
its first maximum meets the contract (`PriorityQueue.scanned`).
-/

/-- A deterministic container that returns and removes a maximal element. -/
structure PriorityQueue (α : Type) (less : α → α → Bool) where
  Carrier : Type
  empty : Carrier
  push : Carrier → α → Carrier
  top : Carrier → Option α
  pop : Carrier → Carrier
  size : Carrier → ℕ
  contents : Carrier → Multiset α
  contents_empty : contents empty = 0
  contents_push : ∀ queue a, contents (push queue a) = a ::ₘ contents queue
  size_eq : ∀ queue, size queue = (contents queue).card
  top_isSome : IsStrictWeakOrder α (fun a b => less a b = true) →
    ∀ queue, contents queue ≠ 0 → (top queue).isSome
  contents_pop : IsStrictWeakOrder α (fun a b => less a b = true) →
    ∀ queue a, top queue = some a → contents queue = a ::ₘ contents (pop queue)
  top_maximal : IsStrictWeakOrder α (fun a b => less a b = true) →
    ∀ queue a, top queue = some a → ∀ b ∈ contents queue, ¬ less a b = true

namespace PriorityQueue

variable {α : Type} {less : α → α → Bool} (Q : PriorityQueue α less)

/-- Pop until the container is empty, listing what was on top. -/
def drainFrom : ℕ → Q.Carrier → List α
  | 0, _ => []
  | count + 1, queue =>
      match Q.top queue with
      | none => []
      | some a => a :: drainFrom count (Q.pop queue)

/-- The contents in the order in which they are popped. -/
def drain (queue : Q.Carrier) : List α := Q.drainFrom (Q.size queue) queue

theorem size_empty : Q.size Q.empty = 0 := by
  rw [Q.size_eq, Q.contents_empty, Multiset.card_zero]

theorem size_eq_zero_iff (queue : Q.Carrier) : Q.size queue = 0 ↔ Q.contents queue = 0 := by
  rw [Q.size_eq, Multiset.card_eq_zero]

theorem drain_of_empty {queue : Q.Carrier} (empty : Q.size queue = 0) : Q.drain queue = [] := by
  rw [drain, empty, drainFrom]

variable [order : IsStrictWeakOrder α (fun a b => less a b = true)] {Q}

theorem exists_top {queue : Q.Carrier} (nonempty : Q.size queue ≠ 0) :
    ∃ a, Q.top queue = some a :=
  Option.isSome_iff_exists.mp
    (Q.top_isSome order queue fun absent => nonempty ((Q.size_eq_zero_iff queue).mpr absent))

theorem contents_eq_cons {queue : Q.Carrier} {a : α} (top : Q.top queue = some a) :
    Q.contents queue = a ::ₘ Q.contents (Q.pop queue) :=
  Q.contents_pop order queue a top

theorem not_less_of_top {queue : Q.Carrier} {a b : α} (top : Q.top queue = some a)
    (member : b ∈ Q.contents queue) : ¬ less a b = true :=
  Q.top_maximal order queue a top b member

theorem size_pop {queue : Q.Carrier} {a : α} (top : Q.top queue = some a) :
    Q.size queue = Q.size (Q.pop queue) + 1 := by
  rw [Q.size_eq, Q.size_eq, contents_eq_cons top, Multiset.card_cons]

theorem drain_of_top {queue : Q.Carrier} {a : α} (top : Q.top queue = some a) :
    Q.drain queue = a :: Q.drain (Q.pop queue) := by
  unfold drain
  rw [size_pop top, drainFrom, top]

/-- Induction on a container by popping it until it is empty. -/
theorem pop_induction {motive : Q.Carrier → Prop}
    (empty : ∀ queue, Q.size queue = 0 → motive queue)
    (pop : ∀ queue a, Q.top queue = some a → motive (Q.pop queue) → motive queue)
    (queue : Q.Carrier) : motive queue := by
  induction size : Q.size queue generalizing queue with
  | zero => exact empty queue size
  | succ count ih =>
      obtain ⟨a, top⟩ := exists_top (show Q.size queue ≠ 0 by omega)
      have smaller := size_pop top
      exact pop queue a top (ih (Q.pop queue) (by omega))

/-- Draining lists exactly the contents. -/
theorem coe_drain (queue : Q.Carrier) : (Q.drain queue : Multiset α) = Q.contents queue := by
  induction queue using pop_induction with
  | empty queue size =>
      rw [Q.drain_of_empty size, (Q.size_eq_zero_iff queue).mp size]
      rfl
  | pop queue a top ih =>
      rw [drain_of_top top, contents_eq_cons top, ← ih]
      rfl

theorem mem_drain {queue : Q.Carrier} {a : α} : a ∈ Q.drain queue ↔ a ∈ Q.contents queue := by
  rw [← coe_drain, Multiset.mem_coe]

/-- Draining lists the contents in non-increasing order. -/
theorem pairwise_drain (queue : Q.Carrier) :
    (Q.drain queue).Pairwise fun a b => ¬ less a b = true := by
  induction queue using pop_induction with
  | empty queue size =>
      rw [Q.drain_of_empty size]
      exact List.Pairwise.nil
  | pop queue a top ih =>
      rw [drain_of_top top]
      refine List.Pairwise.cons (fun b member => ?_) ih
      apply not_less_of_top top
      rw [contents_eq_cons top]
      exact Multiset.mem_cons_of_mem (mem_drain.mp member)

omit order in
private theorem scanned_nonempty {list : List α} {index : ℕ} {a : α}
    (found : list[index]? = some a) : list ≠ [] := by
  rintro rfl
  cases found

omit order in
/-- A list scanned for its first maximum is such a container. -/
def scanned (less : α → α → Bool) : PriorityQueue α less where
  Carrier := List α
  empty := []
  push queue a := queue ++ [a]
  top queue := queue[Selection.bestIndex less queue]?
  pop queue := queue.eraseIdx (Selection.bestIndex less queue)
  size := List.length
  contents queue := queue
  contents_empty := rfl
  contents_push queue a := by
    rw [← Multiset.coe_add, add_comm]
    rfl
  size_eq queue := (Multiset.coe_card queue).symm
  top_isSome order queue nonempty := by
    have stored : queue ≠ [] := fun absent => nonempty (by rw [absent]; rfl)
    obtain ⟨_, _, _, _, top, _⟩ := Selection.bestIndex_pick less stored
    rw [top]
    rfl
  contents_pop order queue a top := by
    obtain ⟨front, best, back, split, first, rest, _⟩ :=
      Selection.bestIndex_pick less (scanned_nonempty top)
    obtain rfl := Option.some.inj (first.symm.trans top)
    rw [rest]
    conv_lhs => rw [split]
    exact Multiset.coe_eq_coe.mpr List.perm_middle
  top_maximal order queue a top := by
    obtain ⟨front, best, back, split, first, _, below, above⟩ :=
      Selection.bestIndex_pick less (scanned_nonempty top)
    obtain rfl := Option.some.inj (first.symm.trans top)
    intro b member
    rw [split] at member
    exact Selection.maximal_of_split below above b member

end PriorityQueue
