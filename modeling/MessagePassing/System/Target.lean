import MessagePassing.Foundation.Rejection
import MessagePassing.System.Whereabouts
import Mathlib.Data.Finset.Card

/-! # Whom a process sends to

A process draws from the IDs it counted when it started until it draws another than its
own. With two processes or more it always finds one, however unlucky it is, as long as every
ID keeps coming up; a process that is alone draws its own ID for ever
(`exists_pickRandomTarget_iff`). What it finds is registered, so no message a process sends
is discarded for want of a receiver (`targetSelection_iff`).
-/

namespace MessagePassing

open Transition

variable {Q : PriorityQueue (Message Ticket) MessageComparator}

/-- The IDs under which as many processes are registered, before any is started. -/
def registeredIDs (totalProcesses : ℕ) : Finset ℤ :=
  (Finset.range totalProcesses).image fun i : ℕ => (i : ℤ) + 1

theorem mem_registeredIDs {totalProcesses : ℕ} {id : ℤ} :
    id ∈ registeredIDs totalProcesses ↔ 1 ≤ id ∧ id ≤ totalProcesses := by
  rw [registeredIDs, Finset.mem_image]
  refine ⟨?_, ?_⟩
  · rintro ⟨i, counted, rfl⟩
    have below := Finset.mem_range.mp counted
    constructor <;> omega
  · rintro ⟨atLeast, atMost⟩
    exact ⟨(id - 1).toNat, Finset.mem_range.mpr (by omega), by omega⟩

theorem card_registeredIDs (totalProcesses : ℕ) :
    (registeredIDs totalProcesses).card = totalProcesses := by
  rw [registeredIDs, Finset.card_image_of_injective, Finset.card_range]
  intro i j same
  dsimp only at same
  omega

/-- The loop of `pickRandomTarget`, in at most `fuel` draws, beginning anywhere in the
stream; the count of processes only bounds what is drawn. -/
def Process.pickRandomTarget (processID : ℤ) (draws : ℕ → ℤ) (start fuel : ℕ) : Option ℤ :=
  Rejection.sample (fun target => target ≠ processID) draws start fuel

/-- Draws from `1` to the count of processes, each of which keeps coming up. -/
structure FairDraws (totalProcesses : ℕ) (draws : ℕ → ℤ) : Prop where
  drawn : ∀ n, draws n ∈ registeredIDs totalProcesses
  recurs : ∀ id ∈ registeredIDs totalProcesses, Rejection.Recurs draws id

variable {totalProcesses : ℕ} {id target : ℤ} {draws : ℕ → ℤ} {start fuel : ℕ}

/-- The target is a registered process other than the sender. -/
theorem pickRandomTarget_real (fair : FairDraws totalProcesses draws)
    (picked : Process.pickRandomTarget id draws start fuel = some target) :
    target ∈ registeredIDs totalProcesses ∧ target ≠ id := by
  obtain ⟨other, n, -, rfl⟩ := Rejection.sample_spec picked
  exact ⟨fair.drawn n, other⟩

/-- Alone, a process draws its own ID whenever it draws. -/
theorem pickRandomTarget_alone (own : id ∈ registeredIDs 1) (fair : FairDraws 1 draws)
    (start fuel : ℕ) : Process.pickRandomTarget id draws start fuel = none := by
  cases picked : Process.pickRandomTarget id draws start fuel with
  | none => rfl
  | some target =>
      obtain ⟨registered, other⟩ := pickRandomTarget_real fair picked
      rw [mem_registeredIDs] at own registered
      omega

/-- The loop ends if and only if there are two processes. -/
theorem exists_pickRandomTarget_iff (own : id ∈ registeredIDs totalProcesses)
    (fair : FairDraws totalProcesses draws) (start : ℕ) :
    (∃ fuel target, Process.pickRandomTarget id draws start fuel = some target) ↔
      2 ≤ totalProcesses := by
  have bounds := mem_registeredIDs.mp own
  refine ⟨?_, ?_⟩
  · rintro ⟨fuel, target, picked⟩
    by_contra few
    obtain rfl : totalProcesses = 1 := by
      omega
    rw [pickRandomTarget_alone own fair] at picked
    cases picked
  · intro peers
    obtain ⟨peer, registered, other⟩ : ∃ peer ∈ registeredIDs totalProcesses, peer ≠ id := by
      by_cases first : id = 1
      · exact ⟨2, mem_registeredIDs.mpr ⟨by omega, by omega⟩, by omega⟩
      · exact ⟨1, mem_registeredIDs.mpr ⟨by omega, by omega⟩, Ne.symm first⟩
    exact (fair.recurs peer registered).exists_sample other start

namespace System

/-- The model's processes send to the targets the loop can find. -/
theorem exists_send_iff_pick {s : System Q} {msgPrio : Priority} {timestamp : String} :
    (∃ next, s.step (.send id target msgPrio timestamp) = some next) ↔
      (s.processes id).point = .send ∧ ∃ draws start fuel,
        (∀ n, draws n ∈ registeredIDs s.registry.card) ∧
          Process.pickRandomTarget id draws start fuel = some target := by
  rw [exists_send_iff]
  apply and_congr_right
  intro _
  refine ⟨?_, ?_⟩
  · rintro ⟨atLeast, atMost, other⟩
    refine ⟨fun _ => target, 0, 1, fun _ => mem_registeredIDs.mpr ⟨atLeast, atMost⟩, ?_⟩
    exact if_pos other
  · rintro ⟨draws, start, fuel, drawn, picked⟩
    obtain ⟨other, n, -, rfl⟩ := Rejection.sample_spec picked
    obtain ⟨atLeast, atMost⟩ := mem_registeredIDs.mp (drawn n)
    exact ⟨atLeast, atMost, other⟩

/-- A message to a registered process is never discarded. -/
theorem not_discarded {registry : Finset ℤ} {acts : List Action} {s : System Q}
    (run : exec System.step (.initial registry) acts = some s) {ticket : Ticket}
    (known : ticket.original.receiverID ∈ registry) : ∀ msg ∈ s.discarded, msg.ticket ≠ ticket := by
  rintro msg discarded rfl
  apply discards_run run msg discarded
  rw [registry_run run, ((conserved_run run).intact _ (mem_located_discarded discarded)).receiverID]
  exact known

end System

/-- **Target selection.** For any number of processes, every one of them and every stream of
draws in which each ID keeps coming up: the loop finds a registered process other than the
sender if and only if there are two processes; whatever it finds is one; in every reachable
state a process that stands at its send sends to exactly what the loop can find in draws from
these IDs; and in every run a message it sends is addressed to one and never discarded. -/
theorem targetSelection_iff {totalProcesses : ℕ} {id : ℤ}
    (own : id ∈ registeredIDs totalProcesses) {draws : ℕ → ℤ}
    (fair : FairDraws totalProcesses draws) (start : ℕ) :
    ((∃ fuel target, Process.pickRandomTarget id draws start fuel = some target ∧
        target ∈ registeredIDs totalProcesses ∧ target ≠ id) ↔ 2 ≤ totalProcesses) ∧
      (∀ fuel target, Process.pickRandomTarget id draws start fuel = some target →
        target ∈ registeredIDs totalProcesses ∧ target ≠ id) ∧
      (∀ (acts : List Action) (s : System Q),
        exec System.step (.initial (registeredIDs totalProcesses)) acts = some s →
          ∀ target msgPrio timestamp,
            (∃ next, s.step (.send id target msgPrio timestamp) = some next) ↔
              (s.processes id).point = .send ∧ ∃ (drawn : ℕ → ℤ) (start fuel : ℕ),
                (∀ n, drawn n ∈ registeredIDs totalProcesses) ∧
                  Process.pickRandomTarget id drawn start fuel = some target) ∧
      ∀ (acts later : List Action) (s next last : System Q) (target : ℤ) (msgPrio : Priority)
        (timestamp : String),
        exec System.step (.initial (registeredIDs totalProcesses)) acts = some s →
        s.step (.send id target msgPrio timestamp) = some next →
        exec System.step next later = some last →
          ∃ ticket, next.sent = s.sent ++ [ticket] ∧ ticket.original.senderID = id ∧
            ticket.original.receiverID ∈ registeredIDs totalProcesses ∧
            ticket.original.receiverID ≠ id ∧ ∀ msg ∈ last.discarded, msg.ticket ≠ ticket := by
  have count {acts : List Action} {s : System Q}
      (run : exec System.step (.initial (registeredIDs totalProcesses)) acts = some s) :
      s.registry.card = totalProcesses := by
    rw [System.registry_run run]
    exact card_registeredIDs totalProcesses
  refine ⟨?_, fun _ _ => pickRandomTarget_real fair, ?_, ?_⟩
  · rw [← exists_pickRandomTarget_iff own fair start]
    refine ⟨?_, ?_⟩
    · rintro ⟨fuel, target, picked, -⟩
      exact ⟨fuel, target, picked⟩
    · rintro ⟨fuel, target, picked⟩
      exact ⟨fuel, target, picked, pickRandomTarget_real fair picked⟩
  · intro acts s run target msgPrio timestamp
    rw [System.exists_send_iff_pick, count run]
  · intro acts later s next last target msgPrio timestamp run taken continued
    obtain ⟨-, drawn, start, fuel, within, picked⟩ :=
      System.exists_send_iff_pick.mp ⟨next, taken⟩
    rw [count run] at within
    obtain ⟨other, n, -, rfl⟩ := Rejection.sample_spec picked
    have known : drawn n ∈ registeredIDs totalProcesses := within n
    refine ⟨_, System.send_step taken, (System.addressed_run run id).ownerID, known, other, ?_⟩
    have whole : exec System.step (.initial (registeredIDs totalProcesses))
        (acts ++ .send id (drawn n) msgPrio timestamp :: later) = some last :=
      exec_append_eq_some.mpr ⟨s, run, exec_cons_eq_some.mpr ⟨next, taken, continued⟩⟩
    exact System.not_discarded whole known

/-- Of two processes, the first finds the second, and what it sends there is delivered. -/
theorem targetSelection_ofTwo :
    let draws : ℕ → ℤ := fun n => n % 2 + 1
    let later := [.proceed 0 false, .proceed 0 false, .proceed 0 false] ++
      List.replicate 5 .dispatch
    (∃ fuel target, Process.pickRandomTarget 1 draws 0 fuel = some target ∧
      target ∈ registeredIDs 2 ∧ target ≠ 1) ∧
      ∃ s next last : System (PriorityQueue.scanned MessageComparator),
        exec System.step (.initial (registeredIDs 2)) [.start 1] = some s ∧
        s.step (.send 1 2 .low "") = some next ∧ exec System.step next later = some last ∧
        last.totalDelivered = 1 ∧ ∃ ticket, next.sent = s.sent ++ [ticket] ∧
          ∀ msg ∈ last.discarded, msg.ticket ≠ ticket := by
  intro draws later
  have fair : FairDraws 2 draws := by
    refine ⟨?_, ?_⟩
    · intro n
      rw [mem_registeredIDs]
      constructor <;> simp only [draws] <;> omega
    · intro id registered n
      rw [mem_registeredIDs] at registered
      by_cases first : id = 1
      · exact ⟨2 * n, by omega, by simp only [draws]; omega⟩
      · exact ⟨2 * n + 1, by omega, by simp only [draws]; omega⟩
  obtain ⟨found, -, -, sends⟩ := targetSelection_iff (Q := PriorityQueue.scanned MessageComparator)
    (by decide : (1 : ℤ) ∈ registeredIDs 2) fair 0
  have reached : (exec (System.step (Q := PriorityQueue.scanned MessageComparator))
      (.initial (registeredIDs 2)) [.start 1]).any (fun s =>
        (s.step (.send 1 2 .low "")).any fun next => (exec System.step next later).any
          fun last => decide (last.totalDelivered = 1)) = true := by
    decide +kernel
  obtain ⟨s, run, beyond⟩ := (Option.any_eq_true _ _).mp reached
  obtain ⟨next, taken, rest⟩ := (Option.any_eq_true _ _).mp beyond
  obtain ⟨last, continued, delivered⟩ := (Option.any_eq_true _ _).mp rest
  obtain ⟨ticket, sent, -, -, -, kept⟩ := sends _ _ _ _ _ _ _ _ run taken continued
  exact ⟨found.mpr le_rfl, s, next, last, run, taken, continued, of_decide_eq_true delivered,
    ticket, sent, kept⟩

/-- A process registered alone draws its own ID again and again and never returns. -/
theorem pickRandomTarget_spins :
    let draws : ℕ → ℤ := fun _ => 1
    1 ∈ registeredIDs 1 ∧ FairDraws 1 draws ∧
      ∀ fuel, Process.pickRandomTarget 1 draws 0 fuel = none := by
  intro draws
  have fair : FairDraws 1 draws := by
    refine ⟨?_, ?_⟩
    · intro n
      decide
    · intro id registered n
      rw [mem_registeredIDs] at registered
      exact ⟨n, le_rfl, by simp only [draws]; omega⟩
  have own : (1 : ℤ) ∈ registeredIDs 1 := by decide
  exact ⟨own, fair, pickRandomTarget_alone own fair 0⟩

end MessagePassing
