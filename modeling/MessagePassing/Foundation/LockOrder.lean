import MessagePassing.Foundation.Transition
import Mathlib.Data.List.Nodup
import Mathlib.Order.WellFounded

/-! # Mutexes taken in order

Threads execute operations that lock and unlock mutexes, one at a time, a mutex being held
by at most one thread and not by one thread twice. The mutexes are ranked, and an operation
locks a mutex only while those it holds rank below it (`LockOrder.Nests`). Then a thread
waits only for threads that, if they wait at all, wait for a mutex of higher rank: no
threads wait for each other in a cycle (`LockOrder.Disciplined.acyclic`), and behind every
thread inside an operation there is one that can go on
(`LockOrder.Disciplined.exists_enabled`).
-/

namespace LockOrder

variable {M T O L : Type*}

inductive Instruction (M : Type*)
  | lock (mutex : M)
  | unlock (mutex : M)
  deriving DecidableEq

/-- A scope that holds a mutex from its beginning to its end. -/
def guarded (mutex : M) (body : List (Instruction M)) : List (Instruction M) :=
  .lock mutex :: (body ++ [.unlock mutex])

/-- The holders of the mutexes, and what each thread has still to execute of the operation
it is inside. -/
structure State (T M : Type*) where
  holder : M → Option T
  program : T → List (Instruction M)

/-- A thread begins an operation, or executes the next instruction of the one it is
inside. -/
inductive Action (T O : Type*)
  | start (thread : T) (operation : O)
  | run (thread : T)

namespace State

/-- No mutex is held, and no thread is inside an operation. -/
def initial : State T M := ⟨fun _ => none, fun _ => []⟩

/-- The thread is to lock this mutex next. -/
def Wants (s : State T M) (thread : T) (mutex : M) : Prop :=
  ∃ rest, s.program thread = .lock mutex :: rest

/-- The thread is to lock a mutex that the other holds. -/
def WaitsFor (s : State T M) (thread other : T) : Prop :=
  ∃ mutex, s.Wants thread mutex ∧ s.holder mutex = some other

variable [DecidableEq T] [DecidableEq M]

/-- The next instruction of a thread. Locking has to wait while the mutex is held. -/
def run (s : State T M) (thread : T) : Option (State T M) :=
  match s.program thread with
  | [] => none
  | .lock mutex :: rest =>
      if s.holder mutex = none then
        some ⟨Function.update s.holder mutex (some thread), Function.update s.program thread rest⟩
      else none
  | .unlock mutex :: rest =>
      if s.holder mutex = some thread then
        some ⟨Function.update s.holder mutex none, Function.update s.program thread rest⟩
      else none

def step (code : O → List (Instruction M)) (s : State T M) : Action T O → Option (State T M)
  | .start thread operation =>
      if s.program thread = [] then
        some { s with program := Function.update s.program thread (code operation) }
      else none
  | .run thread => s.run thread

end State

/-! ## Nesting -/

/-- Executed while the mutexes of the first list are held, the last one locked first, the
program ends with those of the last list held: it unlocks the mutex locked last, and locks
mutexes that rank above those held. -/
def Nests [LT L] (rank : M → L) : List M → List (Instruction M) → List M → Prop
  | held, [], final => held = final
  | held, .lock mutex :: rest, final =>
      (∀ other ∈ held, rank other < rank mutex) ∧ Nests rank (mutex :: held) rest final
  | held, .unlock mutex :: rest, final =>
      ∃ outer, held = mutex :: outer ∧ Nests rank outer rest final

section Nesting

variable [LT L] {rank : M → L} {held middle final : List M} {mutex : M}
  {first second body : List (Instruction M)}

theorem Nests.nil (rank : M → L) (held : List M) : Nests rank held [] held := rfl

theorem Nests.append (before : Nests rank held first middle)
    (after : Nests rank middle second final) : Nests rank held (first ++ second) final := by
  induction first generalizing held with
  | nil =>
      obtain rfl : held = middle := before
      exact after
  | cons instruction rest ih =>
      cases instruction with
      | lock mutex => exact ⟨before.1, ih before.2⟩
      | unlock mutex =>
          obtain ⟨outer, split, remaining⟩ := before
          exact ⟨outer, split, ih remaining⟩

theorem Nests.guarded (above : ∀ other ∈ held, rank other < rank mutex)
    (inside : Nests rank (mutex :: held) body (mutex :: held)) :
    Nests rank held (guarded mutex body) held :=
  ⟨above, inside.append ⟨held, rfl, rfl⟩⟩

theorem Nests.flatMap {α : Type*} {list : List α} {code : α → List (Instruction M)}
    (each : ∀ a ∈ list, Nests rank held (code a) held) :
    Nests rank held (list.flatMap code) held := by
  induction list with
  | nil => rfl
  | cons a rest ih =>
      rw [List.flatMap_cons]
      apply (each a List.mem_cons_self).append
      exact ih fun b member => each b (List.mem_cons_of_mem a member)

end Nesting

/-! ## The discipline in every run -/

/-- Each thread holds the mutexes of its own list, last one first, and is inside a program
that unlocks them all. -/
structure Disciplined [LT L] (rank : M → L) (s : State T M) (held : T → List M) : Prop where
  holder : ∀ thread mutex, mutex ∈ held thread ↔ s.holder mutex = some thread
  distinct : ∀ thread, (held thread).Nodup
  nests : ∀ thread, Nests rank (held thread) (s.program thread) []

section Discipline

variable [Preorder L] {rank : M → L} {s next last : State T M} {held : T → List M}
  {thread other : T} {mutex wanted : M}

theorem Disciplined.initial (rank : M → L) :
    Disciplined rank (State.initial : State T M) fun _ => [] where
  holder _ _ := iff_of_false List.not_mem_nil (Option.some_ne_none _).symm
  distinct _ := List.nodup_nil
  nests _ := rfl

/-- A thread holds mutexes below the one it wants. -/
theorem Disciplined.lt_of_wants (disciplined : Disciplined rank s held)
    (wants : s.Wants thread wanted) (holds : s.holder mutex = some thread) :
    rank mutex < rank wanted := by
  obtain ⟨rest, program⟩ := wants
  have nests := disciplined.nests thread
  rw [program] at nests
  exact nests.1 mutex ((disciplined.holder thread mutex).mpr holds)

/-- No thread locks a mutex it holds. -/
theorem Disciplined.not_holder (disciplined : Disciplined rank s held)
    (wants : s.Wants thread wanted) : s.holder wanted ≠ some thread :=
  fun holds => lt_irrefl _ (disciplined.lt_of_wants wants holds)

theorem State.Wants.unique (wants : s.Wants thread mutex) (wantsToo : s.Wants thread wanted) :
    mutex = wanted := by
  obtain ⟨rest, program⟩ := wants
  obtain ⟨same, programToo⟩ := wantsToo
  exact Instruction.lock.inj (List.cons.inj (program.symm.trans programToo)).1

/-- A thread waited for, if it waits itself, waits for a mutex of higher rank. -/
theorem Disciplined.lt_of_transGen (disciplined : Disciplined rank s held)
    (waits : Relation.TransGen s.WaitsFor thread other) (wants : s.Wants thread mutex)
    (wantsToo : s.Wants other wanted) : rank mutex < rank wanted := by
  induction waits generalizing wanted with
  | single waits =>
      obtain ⟨between, wantsBetween, holds⟩ := waits
      obtain rfl := wants.unique wantsBetween
      exact disciplined.lt_of_wants wantsToo holds
  | tail _ waits ih =>
      obtain ⟨between, wantsBetween, holds⟩ := waits
      exact (ih wantsBetween).trans (disciplined.lt_of_wants wantsToo holds)

/-- **No cycle.** No threads wait for each other in a circle. -/
theorem Disciplined.acyclic (disciplined : Disciplined rank s held) (thread : T) :
    ¬ Relation.TransGen s.WaitsFor thread thread := by
  intro cycle
  obtain ⟨next, ⟨mutex, wants, -⟩, -⟩ := Relation.TransGen.head'_iff.mp cycle
  exact lt_irrefl _ (disciplined.lt_of_transGen cycle wants wants)

/-- A thread that holds a mutex is inside an operation. -/
theorem Disciplined.inside_of_holds (disciplined : Disciplined rank s held)
    (holds : s.holder mutex = some thread) : s.program thread ≠ [] := by
  intro outside
  have nests := disciplined.nests thread
  rw [outside] at nests
  have none : held thread = [] := nests
  have member := (disciplined.holder thread mutex).mpr holds
  rw [none] at member
  exact List.not_mem_nil member

variable [DecidableEq T]

/-- One thread changes what it holds and what it has to execute, and no other thread holds
more or less. -/
theorem Disciplined.update (disciplined : Disciplined rank s held) (thread : T)
    {holder : M → Option T} {program : List (Instruction M)} {now : List M}
    (mine : ∀ mutex, mutex ∈ now ↔ holder mutex = some thread)
    (others : ∀ other ≠ thread, ∀ mutex, s.holder mutex = some other ↔ holder mutex = some other)
    (distinct : now.Nodup) (nests : Nests rank now program []) :
    Disciplined rank ⟨holder, Function.update s.program thread program⟩
      (Function.update held thread now) := by
  constructor
  · intro other
    by_cases same : other = thread
    · subst same
      rw [Function.update_self]
      exact mine
    · rw [Function.update_of_ne same]
      exact fun mutex => (disciplined.holder other mutex).trans (others other same mutex)
  · intro other
    by_cases same : other = thread
    · subst same
      rw [Function.update_self]
      exact distinct
    · rw [Function.update_of_ne same]
      exact disciplined.distinct other
  · intro other
    dsimp only
    by_cases same : other = thread
    · subst same
      rw [Function.update_self, Function.update_self]
      exact nests
    · rw [Function.update_of_ne same, Function.update_of_ne same]
      exact disciplined.nests other

theorem Disciplined.start (disciplined : Disciplined rank s held)
    (outside : s.program thread = []) {program : List (Instruction M)}
    (nests : Nests rank [] program []) :
    ∃ held, Disciplined rank
      { s with program := Function.update s.program thread program } held := by
  have before := disciplined.nests thread
  rw [outside] at before
  have none : held thread = [] := before
  refine ⟨_, disciplined.update thread (fun mutex => ?_) (fun _ _ _ => Iff.rfl)
    List.nodup_nil nests⟩
  rw [← none]
  exact disciplined.holder thread mutex

variable [DecidableEq M] {code : O → List (Instruction M)} {act : Action T O}

/-- A thread inside an operation goes on, or wants a mutex that is held. -/
theorem Disciplined.enabled_or_waits (disciplined : Disciplined rank s held)
    (inside : s.program thread ≠ []) :
    (s.run thread).isSome ∨ ∃ mutex other, s.Wants thread mutex ∧ s.holder mutex = some other := by
  have nests := disciplined.nests thread
  cases program : s.program thread with
  | nil => exact absurd program inside
  | cons instruction rest =>
      cases instruction with
      | lock mutex =>
          cases holder : s.holder mutex with
          | none =>
              left
              simp only [State.run, program, holder, ↓reduceIte, Option.isSome_some]
          | some other => exact Or.inr ⟨mutex, other, ⟨rest, program⟩, holder⟩
      | unlock mutex =>
          rw [program] at nests
          obtain ⟨outer, split, -⟩ := nests
          have holds : s.holder mutex = some thread :=
            (disciplined.holder thread mutex).mp (split ▸ List.mem_cons_self)
          left
          simp only [State.run, program, holds, ↓reduceIte, Option.isSome_some]

/-- **Progress.** Whoever a thread inside an operation waits for, and whoever these wait
for, one of them can go on. -/
theorem Disciplined.exists_enabled [WellFoundedGT L] (disciplined : Disciplined rank s held)
    (inside : s.program thread ≠ []) :
    ∃ other, Relation.ReflTransGen s.WaitsFor thread other ∧ (s.run other).isSome := by
  have behind : ∀ level : L, ∀ thread mutex, rank mutex = level → s.Wants thread mutex →
      ∀ other, s.holder mutex = some other →
        ∃ final, Relation.ReflTransGen s.WaitsFor thread final ∧ (s.run final).isSome := by
    intro level
    induction level using WellFoundedGT.induction with
    | ind level ih =>
        rintro thread mutex rfl wants other holds
        have waits : s.WaitsFor thread other := ⟨mutex, wants, holds⟩
        rcases disciplined.enabled_or_waits (disciplined.inside_of_holds holds) with
          enabled | ⟨next, another, wantsNext, holdsNext⟩
        · exact ⟨other, .single waits, enabled⟩
        · have higher := disciplined.lt_of_wants wantsNext holds
          obtain ⟨final, chain, enabled⟩ := ih _ higher other next rfl wantsNext another holdsNext
          exact ⟨final, .head waits chain, enabled⟩
  rcases disciplined.enabled_or_waits inside with enabled | ⟨mutex, other, wants, holds⟩
  · exact ⟨thread, .refl, enabled⟩
  · exact behind _ thread mutex rfl wants other holds

/-- The thread holds the mutex from now on. -/
theorem Disciplined.lock (disciplined : Disciplined rank s held) {rest : List (Instruction M)}
    (program : s.program thread = .lock mutex :: rest) (free : s.holder mutex = none) :
    ∃ held, Disciplined rank
      ⟨Function.update s.holder mutex (some thread), Function.update s.program thread rest⟩
      held := by
  have nests := disciplined.nests thread
  rw [program] at nests
  refine ⟨_, disciplined.update thread (fun other => ?_) (fun other different another => ?_) ?_
    nests.2⟩
  · rw [List.mem_cons, disciplined.holder]
    by_cases this : other = mutex
    · rw [this, Function.update_self]
      exact iff_of_true (Or.inl rfl) rfl
    · rw [Function.update_of_ne this]
      exact or_iff_right this
  · by_cases this : another = mutex
    · rw [this, Function.update_self, free, Option.some.injEq]
      exact iff_of_false (Option.some_ne_none other).symm (Ne.symm different)
    · rw [Function.update_of_ne this]
  · refine List.nodup_cons.mpr ⟨?_, disciplined.distinct thread⟩
    rw [disciplined.holder, free]
    exact (Option.some_ne_none thread).symm

/-- The thread gives back the mutex it locked last. -/
theorem Disciplined.unlock (disciplined : Disciplined rank s held) {rest : List (Instruction M)}
    (program : s.program thread = .unlock mutex :: rest) :
    ∃ held, Disciplined rank
      ⟨Function.update s.holder mutex none, Function.update s.program thread rest⟩ held := by
  have nests := disciplined.nests thread
  rw [program] at nests
  obtain ⟨outer, split, remaining⟩ := nests
  have distinct := disciplined.distinct thread
  have holder := disciplined.holder thread
  rw [split] at distinct holder
  rw [List.nodup_cons] at distinct
  refine ⟨_, disciplined.update thread (fun other => ?_) (fun other different another => ?_)
    distinct.2 remaining⟩
  · by_cases this : other = mutex
    · rw [this, Function.update_self]
      exact iff_of_false distinct.1 (Option.some_ne_none thread).symm
    · rw [Function.update_of_ne this, ← holder, List.mem_cons]
      exact (or_iff_right this).symm
  · by_cases this : another = mutex
    · rw [this, Function.update_self, (holder mutex).mp List.mem_cons_self, Option.some.injEq]
      exact iff_of_false (Ne.symm different) (Option.some_ne_none other).symm
    · rw [Function.update_of_ne this]

theorem Disciplined.step (disciplined : Disciplined rank s held)
    (nests : ∀ operation, Nests rank [] (code operation) [])
    (taken : s.step code act = some next) : ∃ held, Disciplined rank next held := by
  cases act with
  | start thread operation =>
      rw [State.step, Option.ite_none_right_eq_some, Option.some.injEq] at taken
      obtain ⟨outside, rfl⟩ := taken
      exact disciplined.start outside (nests operation)
  | run thread =>
      change s.run thread = some next at taken
      unfold State.run at taken
      split at taken
      · cases taken
      · rename_i mutex rest program
        rw [Option.ite_none_right_eq_some, Option.some.injEq] at taken
        obtain ⟨free, rfl⟩ := taken
        exact disciplined.lock program free
      · rename_i mutex rest program
        rw [Option.ite_none_right_eq_some, Option.some.injEq] at taken
        obtain ⟨-, rfl⟩ := taken
        exact disciplined.unlock program

/-- Every run from the state in which no mutex is held keeps the discipline. -/
theorem disciplined_run {acts : List (Action T O)}
    (nests : ∀ operation, Nests rank [] (code operation) [])
    (run : Transition.exec (State.step code) State.initial acts = some s) :
    ∃ held, Disciplined rank s held :=
  Transition.exec_invariant (fun s : State T M => ∃ held, Disciplined rank s held)
    (fun _ _ _ ⟨_, disciplined⟩ taken => disciplined.step nests taken)
    ⟨_, .initial rank⟩ run

end Discipline

end LockOrder
