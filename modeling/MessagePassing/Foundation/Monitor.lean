import MessagePassing.Foundation.Transition
import Mathlib.Logic.Function.Basic

/-! # Operations behind one mutex

Any threads call operations on shared data. The code of an operation runs step by step, between
locking the mutex and unlocking it; it may also find that it has to wait, and then starts over
with the mutex unlocked in between. If run alone the code of each operation does what a function
says (`Monitor.Implements`), then in every interleaving of the threads' steps the calls and the
replies are those of a system that performs each operation at once, at some time between its call
and its reply (`Monitor.Implements.linearizable`), no two threads are inside at once, and who is
inside gets out by a bounded number of steps of its own (`Monitor.Linearized.exists_release`).
-/

namespace Monitor

open Transition

variable {σ ο κ ρ ω τ : Type*}

/-! ## The code of the operations -/

/-- How the code goes on: at a point, with its result, or not before it has waited. -/
inductive Outcome (κ ρ : Type*)
  | proceed (point : κ)
  | finish (result : ρ)
  | block

/-- Where the code of each operation starts; what a step does to the data, what it writes and how
the code goes on. -/
structure Code (σ ο κ ρ ω : Type*) where
  start : ο → κ
  step : σ → κ → σ × List ω × Outcome κ ρ

/-- What an operation does to the data, what it writes, and its result if it need not wait. -/
abbrev Meaning (σ ο ρ ω : Type*) := σ → ο → σ × List ω × Option ρ

/-- Run alone, the code ends within so many steps, on these data, with this written and this
result. -/
inductive Code.Ends (code : Code σ ο κ ρ ω) :
    ℕ → σ → Outcome κ ρ → σ → List ω → Option ρ → Prop
  | finish (steps : ℕ) (data : σ) (result : ρ) :
      code.Ends steps data (.finish result) data [] (some result)
  | block (steps : ℕ) (data : σ) : code.Ends steps data .block data [] none
  | proceed {steps : ℕ} {data next last : σ} {point : κ} {outcome : Outcome κ ρ}
      {written rest : List ω} {result : Option ρ} :
      code.step data point = (next, written, outcome) →
      code.Ends steps next outcome last rest result →
      code.Ends (steps + 1) data (.proceed point) last (written ++ rest) result

theorem Code.Ends.mono {code : Code σ ο κ ρ ω} {few many : ℕ} {data last : σ}
    {outcome : Outcome κ ρ} {written : List ω} {result : Option ρ}
    (ends : code.Ends few data outcome last written result) (le : few ≤ many) :
    code.Ends many data outcome last written result := by
  induction ends generalizing many with
  | finish _ data result => exact .finish many data result
  | block _ data => exact .block many data
  | proceed step _ ih =>
      obtain ⟨more, rfl⟩ := Nat.exists_eq_add_of_le' le
      rw [← Nat.add_assoc]
      exact .proceed step (ih (Nat.le_add_left _ _))

/-- A step that writes nothing. -/
theorem Code.Ends.silent {code : Code σ ο κ ρ ω} {steps : ℕ} {data next last : σ} {point : κ}
    {outcome : Outcome κ ρ} {written : List ω} {result : Option ρ}
    (step : code.step data point = (next, [], outcome))
    (ends : code.Ends steps next outcome last written result) :
    code.Ends (steps + 1) data (.proceed point) last written result :=
  .proceed step ends

theorem Code.Ends.of_finish {code : Code σ ο κ ρ ω} {steps : ℕ} {data last : σ} {result : ρ}
    {written : List ω} {value : Option ρ}
    (ends : code.Ends steps data (.finish result) last written value) :
    last = data ∧ written = [] ∧ value = some result := by
  cases ends
  exact ⟨rfl, rfl, rfl⟩

theorem Code.Ends.of_block {code : Code σ ο κ ρ ω} {steps : ℕ} {data last : σ}
    {written : List ω} {value : Option ρ} (ends : code.Ends steps data .block last written value) :
    last = data ∧ written = [] ∧ value = none := by
  cases ends
  exact ⟨rfl, rfl, rfl⟩

/-- Run alone, the code of an operation does what the operation means, within a bound. An
operation that has to wait leaves no trace. -/
structure Implements (code : Code σ ο κ ρ ω) (meaning : Meaning σ ο ρ ω) (bound : σ → ℕ) :
    Prop where
  ends : ∀ data op, code.Ends (bound data) data (.proceed (code.start op)) (meaning data op).1
    (meaning data op).2.1 (meaning data op).2.2
  waits : ∀ data op, (meaning data op).2.2 = none →
    (meaning data op).1 = data ∧ (meaning data op).2.1 = []

/-! ## Threads -/

/-- Where a thread stands: not in a call, before the mutex, behind it, or back from it. -/
inductive ThreadPoint (ο κ ρ : Type*)
  | outside
  | waiting (op : ο)
  | inside (op : ο) (outcome : Outcome κ ρ)
  | returning (result : ρ)

/-- What the callers see. -/
inductive Event (τ ο ρ : Type*)
  | call (thread : τ) (op : ο)
  | reply (thread : τ) (result : ρ)
  deriving DecidableEq

/-- The data and the mutex, the threads, what was written and what the callers saw. -/
structure Guarded (σ ο κ ρ ω τ : Type*) where
  data : σ
  holder : Option τ
  threads : τ → ThreadPoint ο κ ρ
  written : List (τ × ω)
  events : List (Event τ ο ρ)

inductive Move (τ ο : Type*)
  | call (thread : τ) (op : ο)
  | lock (thread : τ)
  | advance (thread : τ)
  | unlock (thread : τ)
  | reply (thread : τ)

/-- Everybody is outside. -/
def Guarded.initial (data : σ) : Guarded σ ο κ ρ ω τ where
  data := data
  holder := none
  threads _ := .outside
  written := []
  events := []

variable [DecidableEq τ]

/-- The next step of a thread. -/
def Guarded.step (code : Code σ ο κ ρ ω) (s : Guarded σ ο κ ρ ω τ) :
    Move τ ο → Option (Guarded σ ο κ ρ ω τ)
  | .call thread op =>
      match s.threads thread with
      | .outside => some { s with
          threads := Function.update s.threads thread (.waiting op)
          events := s.events ++ [.call thread op] }
      | _ => none
  | .lock thread =>
      match s.threads thread, s.holder with
      | .waiting op, none => some { s with
          threads := Function.update s.threads thread (.inside op (.proceed (code.start op)))
          holder := some thread }
      | _, _ => none
  | .advance thread =>
      match s.threads thread with
      | .inside op (.proceed point) =>
          let (data, written, outcome) := code.step s.data point
          some { s with
            data := data
            written := s.written ++ written.map (Prod.mk thread)
            threads := Function.update s.threads thread (.inside op outcome) }
      | _ => none
  | .unlock thread =>
      match s.threads thread with
      | .inside _ (.finish result) => some { s with
          threads := Function.update s.threads thread (.returning result)
          holder := none }
      | .inside op .block => some { s with
          threads := Function.update s.threads thread (.waiting op)
          holder := none }
      | _ => none
  | .reply thread =>
      match s.threads thread with
      | .returning result => some { s with
          threads := Function.update s.threads thread .outside
          events := s.events ++ [.reply thread result] }
      | _ => none

/-! ## The same operations at once -/

/-- Where the caller of an operation stands. -/
inductive Client (ο ρ : Type*)
  | outside
  | waiting (op : ο)
  | returning (result : ρ)

/-- The data, the callers, what was written, what the callers saw, and what was performed. -/
structure Sequential (σ ο ρ ω τ : Type*) where
  data : σ
  clients : τ → Client ο ρ
  written : List (τ × ω)
  events : List (Event τ ο ρ)
  performed : List (ο × ρ)

inductive Turn (τ ο : Type*)
  | call (thread : τ) (op : ο)
  | perform (thread : τ)
  | reply (thread : τ)

def Sequential.initial (data : σ) : Sequential σ ο ρ ω τ where
  data := data
  clients _ := .outside
  written := []
  events := []
  performed := []

/-- A call, a reply, or all of an operation in one step. -/
def Sequential.step (meaning : Meaning σ ο ρ ω) (a : Sequential σ ο ρ ω τ) :
    Turn τ ο → Option (Sequential σ ο ρ ω τ)
  | .call thread op =>
      match a.clients thread with
      | .outside => some { a with
          clients := Function.update a.clients thread (.waiting op)
          events := a.events ++ [.call thread op] }
      | _ => none
  | .perform thread =>
      match a.clients thread with
      | .waiting op =>
          let (data, written, outcome) := meaning a.data op
          outcome.map fun result => { a with
            data := data
            written := a.written ++ written.map (Prod.mk thread)
            clients := Function.update a.clients thread (.returning result)
            performed := a.performed ++ [(op, result)] }
      | _ => none
  | .reply thread =>
      match a.clients thread with
      | .returning result => some { a with
          clients := Function.update a.clients thread .outside
          events := a.events ++ [.reply thread result] }
      | _ => none

theorem Sequential.step_perform {meaning : Meaning σ ο ρ ω} {a : Sequential σ ο ρ ω τ} {thread : τ}
    {op : ο} {data : σ} {written : List ω} {result : ρ} (client : a.clients thread = .waiting op)
    (means : meaning a.data op = (data, written, some result)) :
    a.step meaning (.perform thread) = some { a with
      data := data
      written := a.written ++ written.map (Prod.mk thread)
      clients := Function.update a.clients thread (.returning result)
      performed := a.performed ++ [(op, result)] } := by
  simp only [Sequential.step, client, means, Option.map_some]

/-! ## What a step of a thread can be -/

/-- Everything a thread can do. -/
inductive Moved (code : Code σ ο κ ρ ω) (s : Guarded σ ο κ ρ ω τ) :
    Move τ ο → Guarded σ ο κ ρ ω τ → Prop
  | call (thread : τ) (op : ο) : s.threads thread = .outside → Moved code s (.call thread op)
      { s with
        threads := Function.update s.threads thread (.waiting op)
        events := s.events ++ [.call thread op] }
  | lock (thread : τ) (op : ο) : s.threads thread = .waiting op → s.holder = none →
      Moved code s (.lock thread)
        { s with
          threads := Function.update s.threads thread (.inside op (.proceed (code.start op)))
          holder := some thread }
  | advance (thread : τ) (op : ο) (point : κ) (data : σ) (written : List ω)
      (outcome : Outcome κ ρ) : s.threads thread = .inside op (.proceed point) →
      code.step s.data point = (data, written, outcome) → Moved code s (.advance thread)
        { s with
          data := data
          written := s.written ++ written.map (Prod.mk thread)
          threads := Function.update s.threads thread (.inside op outcome) }
  | finish (thread : τ) (op : ο) (result : ρ) :
      s.threads thread = .inside op (.finish result) → Moved code s (.unlock thread)
        { s with
          threads := Function.update s.threads thread (.returning result)
          holder := none }
  | block (thread : τ) (op : ο) : s.threads thread = .inside op .block →
      Moved code s (.unlock thread)
        { s with
          threads := Function.update s.threads thread (.waiting op)
          holder := none }
  | reply (thread : τ) (result : ρ) : s.threads thread = .returning result →
      Moved code s (.reply thread)
        { s with
          threads := Function.update s.threads thread .outside
          events := s.events ++ [.reply thread result] }

variable {code : Code σ ο κ ρ ω} {meaning : Meaning σ ο ρ ω} {bound : σ → ℕ}
  {s next : Guarded σ ο κ ρ ω τ} {a b : Sequential σ ο ρ ω τ} {move : Move τ ο} {thread : τ}

theorem Guarded.moved_of_step (taken : s.step code move = some next) : Moved code s move next := by
  cases move with
  | call thread op =>
      simp only [Guarded.step] at taken
      split at taken
      · rename_i point
        obtain rfl := Option.some.inj taken
        exact .call thread op point
      · cases taken
  | lock thread =>
      simp only [Guarded.step] at taken
      split at taken
      · rename_i op point free
        obtain rfl := Option.some.inj taken
        exact .lock thread op point free
      · cases taken
  | advance thread =>
      simp only [Guarded.step] at taken
      split at taken
      · rename_i op at_ point
        obtain rfl := Option.some.inj taken
        exact .advance thread op at_ _ _ _ point rfl
      · cases taken
  | unlock thread =>
      simp only [Guarded.step] at taken
      split at taken
      · rename_i op result point
        obtain rfl := Option.some.inj taken
        exact .finish thread op result point
      · rename_i op point
        obtain rfl := Option.some.inj taken
        exact .block thread op point
      · cases taken
  | reply thread =>
      simp only [Guarded.step] at taken
      split at taken
      · rename_i result point
        obtain rfl := Option.some.inj taken
        exact .reply thread result point
      · cases taken

/-! ## In what order the operations are performed -/

/-- An operation is performed when its thread unlocks the mutex. -/
def ThreadPoint.client : ThreadPoint ο κ ρ → Client ο ρ
  | .outside => .outside
  | .waiting op => .waiting op
  | .inside op _ => .waiting op
  | .returning result => .returning result

/-- The data are those of the operations performed, but for what the code of the one behind the
mutex has done so far; this code will have done what the operation means. -/
inductive Shared (code : Code σ ο κ ρ ω) (meaning : Meaning σ ο ρ ω) (bound : σ → ℕ)
    (s : Guarded σ ο κ ρ ω τ) (a : Sequential σ ο ρ ω τ) : Prop
  | free : s.holder = none → s.data = a.data → s.written = a.written → Shared code meaning bound s a
  | held (thread : τ) (op : ο) {outcome : Outcome κ ρ} {steps : ℕ} {past rest : List ω} :
      s.holder = some thread → s.threads thread = .inside op outcome → steps ≤ bound a.data →
      code.Ends steps s.data outcome (meaning a.data op).1 rest (meaning a.data op).2.2 →
      (meaning a.data op).2.1 = past ++ rest →
      s.written = a.written ++ past.map (Prod.mk thread) → Shared code meaning bound s a

/-- The threads' calls are those of the operations performed at once. -/
structure Linearized (code : Code σ ο κ ρ ω) (meaning : Meaning σ ο ρ ω) (bound : σ → ℕ)
    (s : Guarded σ ο κ ρ ω τ) (a : Sequential σ ο ρ ω τ) : Prop where
  events : s.events = a.events
  clients : ∀ thread, a.clients thread = (s.threads thread).client
  alone : ∀ thread op outcome, s.threads thread = .inside op outcome → s.holder = some thread
  shared : Shared code meaning bound s a

omit [DecidableEq τ] in
theorem Linearized.initial (data : σ) :
    Linearized code meaning bound (.initial data : Guarded σ ο κ ρ ω τ) (.initial data) where
  events := rfl
  clients _ := rfl
  alone _ _ _ inside := by cases inside
  shared := .free rfl rfl rfl

omit [DecidableEq τ] in
/-- Only the data, the mutex, what was written and who is behind the mutex matter. -/
theorem Shared.congr (shared : Shared code meaning bound s a) (data : next.data = s.data)
    (holder : next.holder = s.holder) (written : next.written = s.written)
    (same : b.data = a.data) (kept : b.written = a.written)
    (inside : ∀ thread op outcome, s.threads thread = .inside op outcome →
      next.threads thread = .inside op outcome) : Shared code meaning bound next b := by
  cases shared with
  | free unlocked current all =>
      exact .free (holder.trans unlocked) (data.trans (current.trans same.symm))
        (written.trans (all.trans kept.symm))
  | held thread op locked point within ends split all =>
      refine .held thread op (holder.trans locked) (inside thread op _ point) (same ▸ within) ?_
        (same ▸ split) (by rw [written, kept, all])
      rw [data, same]
      exact ends

theorem clients_update (clients : ∀ thread, a.clients thread = (s.threads thread).client)
    (thread : τ) (point : ThreadPoint ο κ ρ) (other : τ) :
    Function.update a.clients thread point.client other =
      (Function.update s.threads thread point other).client := by
  by_cases same : other = thread
  · rw [same, Function.update_self, Function.update_self]
  · rw [Function.update_of_ne same, Function.update_of_ne same, clients]

/-- Where the change is not seen by the callers. -/
theorem clients_kept {point : ThreadPoint ο κ ρ}
    (clients : ∀ thread, a.clients thread = (s.threads thread).client)
    (same : point.client = (s.threads thread).client) (other : τ) :
    a.clients other = (Function.update s.threads thread point other).client := by
  rw [← clients_update clients, same, ← clients, Function.update_eq_self]

/-- A thread that is not inside moves to a point outside. -/
theorem inside_update {point : ThreadPoint ο κ ρ}
    (outside : ∀ op outcome, s.threads thread ≠ .inside op outcome) {other : τ} {op : ο}
    {outcome : Outcome κ ρ} (inside : s.threads other = .inside op outcome) :
    Function.update s.threads thread point other = .inside op outcome := by
  rw [Function.update_of_ne, inside]
  rintro rfl
  exact outside op outcome inside

/-- Nobody else is inside, and the thread that moves is only if it holds the mutex. -/
theorem alone_update {point : ThreadPoint ο κ ρ} {holder : Option τ}
    (others : ∀ other ≠ thread, ∀ op outcome, s.threads other = .inside op outcome →
      holder = some other)
    (here : ∀ op outcome, point = .inside op outcome → holder = some thread) (other : τ) (op : ο)
    (outcome : Outcome κ ρ)
    (inside : Function.update s.threads thread point other = .inside op outcome) :
    holder = some other := by
  by_cases same : other = thread
  · rw [same, Function.update_self] at inside
    exact same ▸ here op outcome inside
  · rw [Function.update_of_ne same] at inside
    exact others other same op outcome inside

omit [DecidableEq τ] in
/-- Where the code that is inside stands. -/
theorem Linearized.held (linearized : Linearized code meaning bound s a) {op : ο}
    {outcome : Outcome κ ρ} (inside : s.threads thread = .inside op outcome) :
    s.holder = some thread ∧ ∃ steps past rest, steps ≤ bound a.data ∧
      code.Ends steps s.data outcome (meaning a.data op).1 rest (meaning a.data op).2.2 ∧
      (meaning a.data op).2.1 = past ++ rest ∧
      s.written = a.written ++ past.map (Prod.mk thread) := by
  have locked := linearized.alone thread op outcome inside
  refine ⟨locked, ?_⟩
  cases linearized.shared with
  | free unlocked => cases locked.symm.trans unlocked
  | held other started holds point within ends split all =>
      obtain rfl := Option.some.inj (locked.symm.trans holds)
      obtain ⟨rfl, rfl⟩ := ThreadPoint.inside.inj (inside.symm.trans point)
      exact ⟨_, _, _, within, ends, split, all⟩

/-- A call or a reply, seen by the caller. -/
theorem Linearized.seen (linearized : Linearized code meaning bound s a) (thread : τ)
    (outside : ∀ op outcome, s.threads thread ≠ .inside op outcome) (point : ThreadPoint ο κ ρ)
    (stays : ∀ op outcome, point ≠ .inside op outcome) (event : Event τ ο ρ) :
    Linearized code meaning bound
      { s with
        threads := Function.update s.threads thread point
        events := s.events ++ [event] }
      { a with
        clients := Function.update a.clients thread point.client
        events := a.events ++ [event] } where
  events := congrArg (· ++ [event]) linearized.events
  clients := clients_update linearized.clients thread point
  alone := alone_update (fun other _ => linearized.alone other)
    fun op outcome inside => absurd inside (stays op outcome)
  shared := linearized.shared.congr rfl rfl rfl rfl rfl fun _ _ _ => inside_update outside

/-- **A step of a thread** is a call, a reply, an operation performed at once, or nothing that the
callers see. -/
theorem Linearized.step (implements : Implements code meaning bound)
    (linearized : Linearized code meaning bound s a) (moved : Moved code s move next) :
    ∃ turns b, exec (Sequential.step meaning) a turns = some b ∧
      Linearized code meaning bound next b := by
  have ⟨events, clients, alone, shared⟩ := linearized
  have left {thread : τ} (locked : s.holder = some thread) (other : τ) (away : other ≠ thread)
      (op : ο) (outcome : Outcome κ ρ) (inside : s.threads other = .inside op outcome) :
      none = some other :=
    absurd (Option.some.inj ((alone other op outcome inside).symm.trans locked)) away
  cases moved with
  | call thread op point =>
      refine ⟨[.call thread op], _, ?_,
        linearized.seen thread ?_ (.waiting op) nofun (.call thread op)⟩
      · simp only [exec_cons, Sequential.step, clients, point, ThreadPoint.client,
          Option.bind_some, exec_nil]
      · intro op outcome inside
        cases point.symm.trans inside
  | reply thread result point =>
      refine ⟨[.reply thread], _, ?_,
        linearized.seen thread ?_ .outside nofun (.reply thread result)⟩
      · simp only [exec_cons, Sequential.step, clients, point, ThreadPoint.client,
          Option.bind_some, exec_nil]
      · intro op outcome inside
        cases point.symm.trans inside
  | lock thread op point unlocked =>
      refine ⟨[], a, rfl, events, clients_kept clients (by rw [point]; rfl), ?_, ?_⟩
      · refine alone_update (fun other _ begun outcome inside => ?_) fun _ _ _ => rfl
        cases unlocked.symm.trans (alone other begun outcome inside)
      · cases shared with
        | free _ data written =>
            refine .held thread op rfl (Function.update_self ..) le_rfl ?_
              (List.nil_append _).symm ?_
            · rw [data]
              exact implements.ends a.data op
            · rw [written, List.map_nil, List.append_nil]
        | held _ _ locked => cases unlocked.symm.trans locked
  | advance thread op point data written outcome inside step =>
      obtain ⟨locked, steps, past, rest, within, ends, split, all⟩ := linearized.held inside
      refine ⟨[], a, rfl, events, clients_kept clients (by rw [inside]; rfl),
        alone_update (fun other _ => alone other) fun _ _ _ => locked, ?_⟩
      cases ends with
      | proceed taken ends =>
          rw [step] at taken
          obtain ⟨rfl, rfl, rfl⟩ := taken
          refine .held thread op locked (Function.update_self ..)
            ((Nat.le_succ _).trans within) ends (split.trans (List.append_assoc ..).symm) ?_
          rw [all, List.map_append, List.append_assoc]
  | finish thread op result inside =>
      have client := clients thread
      rw [inside] at client
      obtain ⟨locked, steps, past, rest, -, ends, split, all⟩ := linearized.held inside
      obtain ⟨current, rfl, value⟩ := ends.of_finish
      rw [List.append_nil] at split
      exact ⟨[.perform thread], _, exec_cons_eq_some.mpr ⟨_, Sequential.step_perform client
        (Prod.ext current (Prod.ext split value)), rfl⟩, events,
        clients_update clients thread (.returning result), alone_update (left locked) nofun,
        .free rfl rfl all⟩
  | block thread op inside =>
      obtain ⟨locked, steps, past, rest, -, ends, split, all⟩ := linearized.held inside
      obtain ⟨current, rfl, value⟩ := ends.of_block
      obtain ⟨kept, nothing⟩ := implements.waits a.data op value
      refine ⟨[], a, rfl, events, clients_kept clients (by rw [inside]; rfl),
        alone_update (left locked) nofun, .free rfl (current.symm.trans kept) ?_⟩
      rw [List.append_nil] at split
      rw [all, ← split, nothing, List.map_nil, List.append_nil]

/-! ## Whole runs -/

/-- **Linearizability.** In every run of the threads the callers see what they would see if each
operation was performed at once between its call and its reply. -/
theorem Implements.linearizable (implements : Implements code meaning bound) {data : σ}
    {moves : List (Move τ ο)} (run : exec (Guarded.step code) (.initial data) moves = some s) :
    ∃ turns a, exec (Sequential.step meaning) (.initial data) turns = some a ∧
      Linearized code meaning bound s a := by
  have matched : ∀ (s : Guarded σ ο κ ρ ω τ) move next (a : Sequential σ ο ρ ω τ),
      Linearized code meaning bound s a → True → s.step code move = some next →
      ∃ turns b, (∀ turn ∈ turns, True) ∧ exec (Sequential.step meaning) a turns = some b ∧
        Linearized code meaning bound next b := by
    intro s move next a linearized _ taken
    obtain ⟨turns, b, performed, linearized⟩ :=
      linearized.step implements (Guarded.moved_of_step taken)
    exact ⟨turns, b, fun _ _ => trivial, performed, linearized⟩
  obtain ⟨turns, a, -, performed, linearized⟩ := exec_simulation (Linearized code meaning bound)
    matched (.initial data) (along_of_forall_mem (fun _ _ => trivial) _) run
  exact ⟨turns, a, performed, linearized⟩

/-- A thread behind the mutex can always go on to unlock it. -/
theorem Code.Ends.exists_unlock {op : ο} {outcome : Outcome κ ρ} {steps : ℕ} {data last : σ}
    {written : List ω} {result : Option ρ} (ends : code.Ends steps data outcome last written result)
    (current : s.data = data) (inside : s.threads thread = .inside op outcome) :
    ∃ few ≤ steps, ∃ next, exec (Guarded.step code) s
        (List.replicate few (.advance thread) ++ [.unlock thread]) = some next ∧
      next.holder = none := by
  induction ends generalizing s with
  | finish | block =>
      have unlocked : ∃ next, s.step code (.unlock thread) = some next ∧ next.holder = none := by
        simp only [Guarded.step, inside, Option.some.injEq, exists_eq_left']
      obtain ⟨next, taken, free⟩ := unlocked
      exact ⟨0, Nat.zero_le _, next, exec_cons_eq_some.mpr ⟨next, taken, rfl⟩, free⟩
  | @proceed _ _ grown _ _ outcome _ _ _ step _ ih =>
      have advanced : ∃ next, s.step code (.advance thread) = some next ∧ next.data = grown ∧
          next.threads thread = .inside op outcome := by
        simp only [Guarded.step, inside, current, step, Option.some.injEq, exists_eq_left',
          Function.update_self, and_self]
      obtain ⟨next, taken, reached, further⟩ := advanced
      obtain ⟨few, within, last, run, free⟩ := ih reached further
      refine ⟨few + 1, Nat.succ_le_succ within, last, ?_, free⟩
      rw [List.replicate_succ, List.cons_append]
      exact exec_cons_eq_some.mpr ⟨next, taken, run⟩

omit [DecidableEq τ] in
/-- With the mutex free nothing is half done. -/
theorem Linearized.of_free (linearized : Linearized code meaning bound s a)
    (free : s.holder = none) : s.data = a.data ∧ s.written = a.written := by
  cases linearized.shared with
  | free _ data written => exact ⟨data, written⟩
  | held _ _ locked => cases free.symm.trans locked

/-- **Nobody stays inside.** Who holds the mutex unlocks it by so many steps of its own. -/
theorem Linearized.exists_release (linearized : Linearized code meaning bound s a)
    (locked : s.holder = some thread) : ∃ few ≤ bound a.data, ∃ next,
      exec (Guarded.step code) s (List.replicate few (.advance thread) ++ [.unlock thread]) =
        some next ∧ next.holder = none := by
  cases linearized.shared with
  | free unlocked => cases locked.symm.trans unlocked
  | held other op holds inside within ends =>
      obtain rfl := Option.some.inj (locked.symm.trans holds)
      obtain ⟨few, fewer, next, run, free⟩ := ends.exists_unlock rfl inside
      exact ⟨few, fewer.trans within, next, run, free⟩

/-- What every operation keeps holds of the data and the operations performed. -/
theorem Sequential.exec_performed (invariant : σ → List (ο × ρ) → Prop)
    (kept : ∀ data performed op next written result, invariant data performed →
      meaning data op = (next, written, some result) → invariant next (performed ++ [(op, result)]))
    {data : σ} {turns : List (Turn τ ο)} (holds : invariant data [])
    (run : exec (Sequential.step meaning) (.initial data) turns = some a) :
    invariant a.data a.performed := by
  refine exec_invariant (fun a : Sequential σ ο ρ ω τ => invariant a.data a.performed) ?_
    holds run
  intro a turn b holds taken
  cases turn with
  | call thread op =>
      simp only [Sequential.step] at taken
      split at taken
      · obtain rfl := Option.some.inj taken
        exact holds
      · cases taken
  | perform thread =>
      simp only [Sequential.step] at taken
      split at taken
      · rename_i op _
        obtain ⟨result, value, rfl⟩ := Option.map_eq_some_iff.mp taken
        exact kept a.data a.performed op _ _ result holds (Prod.ext rfl (Prod.ext rfl value))
      · cases taken
  | reply thread =>
      simp only [Sequential.step] at taken
      split at taken
      · obtain rfl := Option.some.inj taken
        exact holds
      · cases taken

end Monitor
