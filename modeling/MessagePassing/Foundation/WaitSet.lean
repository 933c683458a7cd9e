import Mathlib.Data.Finset.Card
import Mathlib.Data.Finset.Lattice.Basic

/-! # The threads waiting on a condition variable

A thread in a wait is asleep, notified, or woken spuriously, until it runs again. A
notification moves one sleeping thread, chosen by the caller, if there is one. With
one notification for each item provided, and threads going to sleep only when there
is no item, sleeping threads are covered by as many notified ones as there are items
(`WaitSet.Covers`), however items are taken and threads woken in between.
-/

/-- The threads in a wait, each in one state. -/
structure WaitSet (T : Type) [DecidableEq T] where
  asleep : Finset T
  notified : Finset T
  spurious : Finset T
  asleep_notified : Disjoint asleep notified
  asleep_spurious : Disjoint asleep spurious
  notified_spurious : Disjoint notified spurious

namespace WaitSet

variable {T : Type} [DecidableEq T]

def empty : WaitSet T where
  asleep := ∅
  notified := ∅
  spurious := ∅
  asleep_notified := Finset.disjoint_empty_left _
  asleep_spurious := Finset.disjoint_empty_left _
  notified_spurious := Finset.disjoint_empty_left _

/-- The threads that have not run again. -/
def waiting (waiters : WaitSet T) : Finset T :=
  waiters.asleep ∪ waiters.notified ∪ waiters.spurious

/-- The threads woken that have not run again. -/
def woken (waiters : WaitSet T) : Finset T := waiters.notified ∪ waiters.spurious

/-- A running thread goes to sleep. -/
def sleep (waiters : WaitSet T) (t : T) (running : t ∉ waiters.waiting) : WaitSet T where
  asleep := insert t waiters.asleep
  notified := waiters.notified
  spurious := waiters.spurious
  asleep_notified := by
    simp only [waiting, Finset.mem_union, not_or] at running
    exact Finset.disjoint_insert_left.mpr ⟨running.1.2, waiters.asleep_notified⟩
  asleep_spurious := by
    simp only [waiting, Finset.mem_union, not_or] at running
    exact Finset.disjoint_insert_left.mpr ⟨running.2, waiters.asleep_spurious⟩
  notified_spurious := waiters.notified_spurious

/-- Notify one sleeping thread. -/
def wake (waiters : WaitSet T) (t : T) (sleeping : t ∈ waiters.asleep) : WaitSet T where
  asleep := waiters.asleep.erase t
  notified := insert t waiters.notified
  spurious := waiters.spurious
  asleep_notified := Finset.disjoint_insert_right.mpr ⟨Finset.notMem_erase t _,
    waiters.asleep_notified.mono_left (Finset.erase_subset t _)⟩
  asleep_spurious := waiters.asleep_spurious.mono_left (Finset.erase_subset t _)
  notified_spurious := Finset.disjoint_insert_left.mpr
    ⟨Finset.disjoint_left.mp waiters.asleep_spurious sleeping, waiters.notified_spurious⟩

/-- `notify_one` wakes a sleeping thread if there is one. -/
def notifyOne (waiters : WaitSet T) (chosen : T) : Option (WaitSet T) :=
  if waiters.asleep = ∅ then some waiters
  else if sleeping : chosen ∈ waiters.asleep then some (waiters.wake chosen sleeping)
  else none

/-- A sleeping thread wakes unnotified. -/
def wakeSpuriously (waiters : WaitSet T) (t : T) : Option (WaitSet T) :=
  if sleeping : t ∈ waiters.asleep then
    some
      { asleep := waiters.asleep.erase t
        notified := waiters.notified
        spurious := insert t waiters.spurious
        asleep_notified := waiters.asleep_notified.mono_left (Finset.erase_subset t _)
        asleep_spurious := Finset.disjoint_insert_right.mpr ⟨Finset.notMem_erase t _,
          waiters.asleep_spurious.mono_left (Finset.erase_subset t _)⟩
        notified_spurious := Finset.disjoint_insert_right.mpr
          ⟨Finset.disjoint_left.mp waiters.asleep_notified sleeping, waiters.notified_spurious⟩ }
  else none

/-- A woken thread runs again. -/
def resume (waiters : WaitSet T) (t : T) : WaitSet T where
  asleep := waiters.asleep
  notified := waiters.notified.erase t
  spurious := waiters.spurious.erase t
  asleep_notified := waiters.asleep_notified.mono_right (Finset.erase_subset t _)
  asleep_spurious := waiters.asleep_spurious.mono_right (Finset.erase_subset t _)
  notified_spurious := waiters.notified_spurious.mono (Finset.erase_subset t _)
    (Finset.erase_subset t _)

theorem notMem_waiting_resume {waiters : WaitSet T} {t : T} (awake : t ∈ waiters.woken) :
    t ∉ (waiters.resume t).waiting := by
  simp only [waiting, resume, Finset.mem_union, Finset.mem_erase, ne_eq, not_true_eq_false,
    false_and, or_false]
  intro sleeping
  rcases Finset.mem_union.mp awake with notified | spurious
  · exact Finset.disjoint_left.mp waiters.asleep_notified sleeping notified
  · exact Finset.disjoint_left.mp waiters.asleep_spurious sleeping spurious

theorem waiting_sleep (waiters : WaitSet T) (t : T) (running : t ∉ waiters.waiting) :
    (waiters.sleep t running).waiting = insert t waiters.waiting := by
  rw [waiting, waiting, sleep, Finset.insert_union, Finset.insert_union]

/-- A thread asleep is not woken. -/
theorem woken_sleep (waiters : WaitSet T) (t : T) (running : t ∉ waiters.waiting) :
    t ∉ (waiters.sleep t running).woken := by
  intro awake
  apply running
  rw [waiting, Finset.union_assoc]
  exact Finset.mem_union_right _ awake

theorem waiting_resume_subset (waiters : WaitSet T) (t : T) :
    (waiters.resume t).waiting ⊆ waiters.waiting :=
  Finset.union_subset_union
    (Finset.union_subset_union subset_rfl (Finset.erase_subset t _)) (Finset.erase_subset t _)

/-- A notification leaves the same threads waiting. -/
theorem waiting_notifyOne {waiters next : WaitSet T} {t : T}
    (notified : waiters.notifyOne t = some next) : next.waiting = waiters.waiting := by
  unfold notifyOne at notified
  split at notified
  · rw [Option.some.inj notified]
  · split at notified
    · rename_i sleeping
      obtain rfl := Option.some.inj notified
      rw [waiting, waiting, wake, Finset.union_insert, ← Finset.insert_union,
        Finset.insert_erase sleeping]
    · cases notified

/-- The only thread that can be asleep can be chosen. -/
theorem notifyOne_enabled {waiters : WaitSet T} {t : T}
    (only : ∀ other ∈ waiters.asleep, other = t) : ∃ next, waiters.notifyOne t = some next := by
  unfold notifyOne
  split
  · exact ⟨waiters, rfl⟩
  · rename_i somebody
    obtain ⟨other, asleep⟩ := Finset.nonempty_iff_ne_empty.mpr somebody
    rw [only other asleep] at asleep
    exact ⟨waiters.wake t asleep, dif_pos asleep⟩

theorem waiting_wakeSpuriously {waiters next : WaitSet T} {t : T}
    (woke : waiters.wakeSpuriously t = some next) : next.waiting = waiters.waiting := by
  unfold wakeSpuriously at woke
  split at woke
  · rename_i sleeping
    obtain rfl := Option.some.inj woke
    rw [waiting, waiting, Finset.union_insert, ← Finset.insert_union, ← Finset.insert_union,
      Finset.insert_erase sleeping]
  · cases woke

/-- If threads sleep, at least as many others are notified as there are items. -/
def Covers (waiters : WaitSet T) (items : ℕ) : Prop :=
  waiters.asleep ≠ ∅ → items ≤ waiters.notified.card

variable {waiters next : WaitSet T} {items : ℕ} {t : T}

theorem Covers.zero (waiters : WaitSet T) : waiters.Covers 0 := fun _ => Nat.zero_le _

/-- Fewer items need fewer notified threads. -/
theorem Covers.mono {fewer : ℕ} (covers : waiters.Covers items) (less : fewer ≤ items) :
    waiters.Covers fewer := fun sleeping => less.trans (covers sleeping)

/-- One notification covers one more item. -/
theorem Covers.notifyOne (covers : waiters.Covers items)
    (notified : waiters.notifyOne t = some next) : next.Covers (items + 1) := by
  unfold WaitSet.notifyOne at notified
  split at notified
  · rename_i nobody
    obtain rfl := Option.some.inj notified
    exact fun sleeping => absurd nobody sleeping
  · rename_i somebody
    split at notified
    · rename_i sleeping
      obtain rfl := Option.some.inj notified
      intro _
      have absent := Finset.disjoint_left.mp waiters.asleep_notified sleeping
      have before := covers somebody
      simp only [wake, Finset.card_insert_of_notMem absent]
      omega
    · cases notified

theorem Covers.wakeSpuriously (covers : waiters.Covers items)
    (woke : waiters.wakeSpuriously t = some next) : next.Covers items := by
  unfold WaitSet.wakeSpuriously at woke
  split at woke
  · rename_i sleeping
    obtain rfl := Option.some.inj woke
    exact fun _ => covers (Finset.ne_empty_of_mem sleeping)
  · cases woke

/-- A thread running again gives up the cover of one item, which it can take. -/
theorem Covers.resume (covers : waiters.Covers (items + 1)) : (waiters.resume t).Covers items := by
  intro sleeping
  have before := covers sleeping
  have erased := Finset.pred_card_le_card_erase (s := waiters.notified) (a := t)
  simp only [WaitSet.resume]
  omega

end WaitSet
