import Mathlib.Data.List.Nodup
import Mathlib.Data.List.Range
import Mathlib.Data.Nat.Notation

/-! # Counters that wrap around

The values a counter of fixed width takes on its way up from one, as signed numbers. They
are different exactly up to the first wrap, and the first of them that is zero is the last
value before it (`WrappingCounter.nodup_values_iff`, `WrappingCounter.zero_mem_values_iff`).
-/

namespace WrappingCounter

/-- The first values of a counter that starts at one and wraps at `modulus`. -/
def values (modulus count : ℕ) : List ℤ :=
  (List.range count).map fun i : ℕ => Int.bmod (i + 1) modulus

variable {modulus count : ℕ}

@[simp] theorem length_values (modulus count : ℕ) : (values modulus count).length = count := by
  rw [values, List.length_map, List.length_range]

theorem values_succ (modulus count : ℕ) :
    values modulus (count + 1) = values modulus count ++ [Int.bmod (count + 1) modulus] := by
  rw [values, values, List.range_succ, List.map_append, List.map_singleton]

/-- The counter goes on from its last value. -/
theorem bmod_next (modulus count : ℕ) :
    Int.bmod (Int.bmod (count + 1) modulus + 1) modulus =
      Int.bmod ((count + 1 : ℕ) + 1) modulus := by
  rw [Int.bmod_add_bmod, Int.natCast_succ]

/-- Two values are equal when the counter has gone round between them. -/
theorem bmod_eq_iff (modulus i j : ℕ) :
    Int.bmod (i + 1) modulus = Int.bmod (j + 1) modulus ↔ i % modulus = j % modulus := by
  rw [Int.bmod_add_cancel_right]
  refine ⟨fun same => ?_, fun same => ?_⟩
  · have residues := congrArg (· % (modulus : ℤ)) same
    simp only [Int.bmod_emod] at residues
    exact_mod_cast residues
  · have residues : (i : ℤ) % modulus = (j : ℤ) % modulus := by exact_mod_cast same
    rw [← Int.emod_bmod (i : ℤ), residues, Int.emod_bmod]

/-- The values are different up to the first wrap. -/
theorem nodup_values_iff (positive : 0 < modulus) :
    (values modulus count).Nodup ↔ count ≤ modulus := by
  refine ⟨fun distinct => ?_, fun few => ?_⟩
  · by_contra many
    have same : 0 = modulus := by
      refine List.inj_on_of_nodup_map distinct (List.mem_range.mpr (by omega))
        (List.mem_range.mpr (by omega)) ((bmod_eq_iff modulus 0 modulus).mpr ?_)
      rw [Nat.zero_mod, Nat.mod_self]
    omega
  · refine List.Nodup.map_on (fun i below j under same => ?_) List.nodup_range
    have residues := (bmod_eq_iff modulus i j).mp same
    rwa [Nat.mod_eq_of_lt ((List.mem_range.mp below).trans_le few),
      Nat.mod_eq_of_lt ((List.mem_range.mp under).trans_le few)] at residues

/-- The counter takes the value zero when it has gone round. -/
theorem zero_mem_values_iff (positive : 0 < modulus) :
    (0 : ℤ) ∈ values modulus count ↔ modulus ≤ count := by
  have last : Int.bmod ((modulus - 1 : ℕ) + 1) modulus = 0 := by
    rw [← Int.natCast_succ, Nat.succ_eq_add_one, Nat.sub_add_cancel positive, Int.bmod_self]
  rw [values, List.mem_map]
  refine ⟨?_, fun enough => ⟨modulus - 1, List.mem_range.mpr (by omega), last⟩⟩
  rintro ⟨i, below, zero⟩
  have residues := (bmod_eq_iff modulus i (modulus - 1)).mp (zero.trans last.symm)
  rw [Nat.mod_eq_of_lt (by omega : modulus - 1 < modulus)] at residues
  have := List.mem_range.mp below
  have := Nat.mod_le i modulus
  omega

end WrappingCounter
