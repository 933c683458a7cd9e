import MessagePassing.Foundation.WrappingCounter
import MessagePassing.System.Supervision

/-! # Message IDs

The IDs handed out are the values of one 32-bit counter, whoever asks for them and in whatever
order, and a process puts each it takes on one message (`System.issuedIDs_run`,
`System.KnownIDs.step`). So IDs identify messages exactly until the counter has gone round, and
one of them is the zero that a receiver takes for no message exactly from then on
(`messageIDs_distinct_iff`).
-/

namespace MessagePassing

open Transition

variable {Q : PriorityQueue (Message Ticket) MessageComparator}

namespace System

variable {s next : System Q} {act : Action} {acts : List Action} {registry : Finset ℤ}

/-- The IDs are handed out in order. -/
structure Numbered (s : System Q) : Prop where
  next : s.nextMessageID = Int.bmod (s.issuedIDs.length + 1) (2 ^ 32)
  issued : s.issuedIDs = WrappingCounter.values (2 ^ 32) s.issuedIDs.length

theorem Numbered.initial (registry : Finset ℤ) : (initial registry : System Q).Numbered where
  next := (by decide : (1 : ℤ) = Int.bmod ((0 : ℕ) + 1) (2 ^ 32))
  issued := rfl

theorem Numbered.generate (numbered : s.Numbered) : s.generateMessageID.2.Numbered := by
  obtain ⟨upcoming, issued⟩ := numbered
  have counted : s.generateMessageID.2.issuedIDs.length = s.issuedIDs.length + 1 :=
    List.length_append
  refine ⟨?_, ?_⟩
  · rw [counted, ← WrappingCounter.bmod_next, ← upcoming]
    rfl
  · rw [counted, WrappingCounter.values_succ, ← issued, ← upcoming]
    rfl

theorem Numbered.step (numbered : s.Numbered) (kind : StepKind s act next) : next.Numbered := by
  cases kind with
  | generate => exact numbered.generate
  | send => exact ⟨numbered.generate.next, numbered.generate.issued⟩
  | _ => exact ⟨numbered.next, numbered.issued⟩

/-- The IDs handed out are the first values of the counter. -/
theorem issuedIDs_run (run : exec System.step (.initial registry) acts = some s) :
    s.issuedIDs = WrappingCounter.values (2 ^ 32) s.issuedIDs.length :=
  (exec_invariant Numbered (fun _ _ _ numbered taken => numbered.step (step_kind taken))
    (.initial registry) run).issued

/-- While only processes send, they take as many IDs as they send messages. -/
theorem length_issuedIDs (own : ∀ act ∈ acts, act.Own)
    (run : exec System.step (.initial registry) acts = some s) :
    s.issuedIDs.length = s.sent.length := by
  refine exec_invariant_along (fun s : System Q => s.issuedIDs.length = s.sent.length) ?_ rfl
    (along_of_forall_mem own _) run
  intro s act next same own taken
  cases step_kind taken with
  | generate => exact own.elim
  | enter msg => exact own.elim
  | send =>
      change (s.issuedIDs ++ [_]).length = (s.sent ++ [_]).length
      rw [List.length_append, List.length_append, same]
      rfl
  | _ => exact same

end System

/-- **Message IDs.** In every run, whoever takes IDs and in whatever order: those taken are
different if and only if no more than `2 ^ 32` were; the zero that a receiver takes for no message
is among them if and only if that many were; and while only processes send, the messages sent
carry IDs taken, no ID more often than it was taken, so they have different IDs as long as no
more than `2 ^ 32` were taken. -/
theorem messageIDs_distinct_iff {Q : PriorityQueue (Message Ticket) MessageComparator}
    {registry : Finset ℤ} {acts : List Action} {s : System Q}
    (run : exec System.step (.initial registry) acts = some s) :
    (s.issuedIDs.Nodup ↔ s.issuedIDs.length ≤ 2 ^ 32) ∧
      ((0 : ℤ) ∈ s.issuedIDs ↔ 2 ^ 32 ≤ s.issuedIDs.length) ∧
      ((∀ act ∈ acts, act.Own) → s.sentIDs.Subperm s.issuedIDs ∧
        (s.issuedIDs.length ≤ 2 ^ 32 → s.sentIDs.Nodup)) := by
  have issued := System.issuedIDs_run run
  have different : s.issuedIDs.Nodup ↔ s.issuedIDs.length ≤ 2 ^ 32 := by
    rw [issued, WrappingCounter.length_values]
    exact WrappingCounter.nodup_values_iff (Nat.two_pow_pos 32)
  refine ⟨different, ?_, fun own => ?_⟩
  · rw [issued, WrappingCounter.length_values]
    exact WrappingCounter.zero_mem_values_iff (Nat.two_pow_pos 32)
  · have known := (System.reconciled_run run (System.takesIDs_of_own own _)).known
    refine ⟨known, fun few => ?_⟩
    obtain ⟨taken, perm, sublist⟩ := known
    exact perm.nodup ((different.mpr few).sublist sublist)

/-- Two processes and another caller take one ID each. -/
theorem messageIDs_distinct_ofThree :
    let acts := [.start 1, .start 2, .send 1 2 .low "", .generateMessageID, .send 2 1 .high ""]
    ∃ s : System (PriorityQueue.scanned MessageComparator),
      exec System.step (.initial {1, 2}) acts = some s ∧ s.issuedIDs = [1, 2, 3] ∧
        s.issuedIDs.Nodup := by
  intro acts
  have reached : (exec (System.step (Q := PriorityQueue.scanned MessageComparator))
      (.initial {1, 2}) acts).any (fun s => decide (s.issuedIDs = [1, 2, 3])) = true := by
    decide +kernel
  obtain ⟨s, run, holds⟩ := (Option.any_eq_true _ _).mp reached
  have issued := of_decide_eq_true holds
  have distinct := (messageIDs_distinct_iff run).1.mpr (by rw [issued]; decide)
  exact ⟨s, run, issued, distinct⟩

end MessagePassing
