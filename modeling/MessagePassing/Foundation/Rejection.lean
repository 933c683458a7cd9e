import Mathlib.Order.Basic
import Mathlib.Order.Nat

/-! # Drawing until a draw is accepted

A loop that draws from a stream until a draw is accepted has no bound, so it runs with
fuel. Enough fuel exists if and only if the stream has an accepted draw from where the loop
starts (`Rejection.exists_sample_iff`), as it does when an accepted value recurs.
-/

namespace Rejection

variable {α : Type*} {accept : α → Prop} [DecidablePred accept] {draws : ℕ → α}
  {start fuel : ℕ} {a : α}

variable (accept draws) in
/-- The first accepted draw from a position of the stream on, in at most `fuel` draws. -/
def sample : ℕ → ℕ → Option α
  | _, 0 => none
  | start, fuel + 1 =>
      if accept (draws start) then some (draws start) else sample (start + 1) fuel

/-- The value occurs infinitely often. -/
def Recurs (draws : ℕ → α) (a : α) : Prop := ∀ n, ∃ later, n ≤ later ∧ draws later = a

/-- What is returned is an accepted draw. -/
theorem sample_spec (found : sample accept draws start fuel = some a) :
    accept a ∧ ∃ n, start ≤ n ∧ draws n = a := by
  induction fuel generalizing start with
  | zero => cases found
  | succ fuel ih =>
      unfold sample at found
      split at found
      · rename_i accepted
        obtain rfl := Option.some.inj found
        exact ⟨accepted, start, le_rfl, rfl⟩
      · obtain ⟨accepted, n, later, same⟩ := ih found
        exact ⟨accepted, n, Nat.le_of_succ_le later, same⟩

/-- The loop returns as soon as there is an accepted draw. -/
theorem exists_sample (distance : ℕ) (accepted : accept (draws (start + distance))) :
    ∃ a, sample accept draws start (distance + 1) = some a := by
  induction distance generalizing start with
  | zero => exact ⟨draws start, if_pos accepted⟩
  | succ distance ih =>
      rw [sample]
      split
      · exact ⟨draws start, rfl⟩
      · have shifted : start + (distance + 1) = start + 1 + distance := by
          omega
        rw [shifted] at accepted
        exact ih accepted

/-- **Termination.** The loop returns if and only if there is an accepted draw. -/
theorem exists_sample_iff : (∃ fuel a, sample accept draws start fuel = some a) ↔
    ∃ n, start ≤ n ∧ accept (draws n) := by
  refine ⟨?_, ?_⟩
  · rintro ⟨fuel, a, found⟩
    obtain ⟨accepted, n, later, rfl⟩ := sample_spec found
    exact ⟨n, later, accepted⟩
  · rintro ⟨n, later, accepted⟩
    obtain ⟨distance, rfl⟩ := Nat.exists_eq_add_of_le later
    exact ⟨distance + 1, exists_sample distance accepted⟩

theorem Recurs.exists_sample (recurs : Recurs draws a) (accepted : accept a) (start : ℕ) :
    ∃ fuel a, sample accept draws start fuel = some a := by
  obtain ⟨n, later, rfl⟩ := recurs start
  exact exists_sample_iff.mpr ⟨n, later, accepted⟩

end Rejection
