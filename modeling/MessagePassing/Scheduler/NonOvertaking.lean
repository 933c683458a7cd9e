import MessagePassing.Scheduler.History

/-! # The scheduler does not let messages overtake

Three consequences of `Scheduler.Ordered` along runs of the scheduler. A message
added while another of at least its priority is pending is not returned before it
(`History.not_overtaken`). Messages of equal original priority leave in the order
they were added (`History.sameLevel_pairwise`). A message at the highest priority
leaves before everything added later, within as many picks as there are pending
messages (`History.leavesInTime`).
-/

namespace MessagePassing

open Transition

namespace History

variable {history next last : History} {call : Call} {schedule : List Call}

/-- An order of tickets is kept by a call if a message added stands behind those
put ahead of it. -/
theorem ordered_step {ahead : Ticket → Ticket → Prop} (ordered : history.scheduler.Ordered ahead)
    (fresh : call.Fresh) (taken : history.step call = some next)
    (follows : ∀ msg, call = .addMessage msg → ∀ earlier ∈ history.pending,
      earlier.Precedes ahead (msg.stamp history.issued.length)) :
    next.scheduler.Ordered ahead := by
  rcases step_cases taken with ⟨msg, rfl, scheduler, -⟩ | ⟨out, -, picked, -⟩ | ⟨-, scheduler, -⟩
  · rw [scheduler]
    have counter : msg.agingCounter = 0 := fresh
    exact ordered.addMessage counter.ge (follows msg rfl)
  · exact ordered.getNextMessage picked
  · rw [scheduler]
    exact ordered.applyAging

theorem issued_length_mono (taken : history.step call = some next) :
    history.issued.length ≤ next.issued.length := by
  rcases step_cases taken with ⟨msg, -, -, issued, -⟩ | ⟨out, -, -, issued, -⟩ | ⟨-, -, issued, -⟩
  · rw [issued, List.length_append]
    omega
  · rw [issued]
  · rw [issued]

theorem consistent_run (consistent : history.Consistent)
    (run : exec step history schedule = some last) : last.Consistent :=
  exec_invariant Consistent (fun _ _ _ => Consistent.step) consistent run

/-! ## A message added behind another -/

/-- One ticket is put ahead of another; both are issued. -/
structure Follows (first second : Ticket) (history : History) : Prop where
  ordered : history.scheduler.Ordered fun i j => i = first ∧ j = second
  first_lt : first.serial < history.issued.length
  second_lt : second.serial < history.issued.length

theorem Follows.step {first second : Ticket} (follows : Follows first second history)
    (fresh : call.Fresh) (taken : history.step call = some next) : Follows first second next where
  ordered := by
    refine ordered_step follows.ordered fresh taken fun msg _ earlier _ => ?_
    refine ⟨?_, ?_⟩
    · rintro ⟨-, rfl⟩
      exact absurd follows.second_lt (Nat.lt_irrefl _)
    · rintro ⟨rfl, -⟩
      exact absurd follows.first_lt (Nat.lt_irrefl _)
  first_lt := follows.first_lt.trans_le (issued_length_mono taken)
  second_lt := follows.second_lt.trans_le (issued_length_mono taken)

/-- Adding a message of at most the priority of a pending one. -/
theorem Follows.add (consistent : history.Consistent)
    (nonneg : ∀ msg ∈ history.pending, 0 ≤ msg.agingCounter)
    {first : Message Ticket} (pending : first ∈ history.pending)
    {second : Message Unit} (level : second.priority.toInt ≤ first.priority.toInt)
    (fresh : second.agingCounter = 0)
    (taken : history.step (.addMessage second) = some next) :
    Follows first.ticket ⟨history.issued.length, second⟩ next := by
  have below : ∀ msg ∈ history.pending, msg.ticket.serial < history.issued.length :=
    fun _ member => consistent.pending_serial_lt member
  have absent : ∀ msg ∈ history.pending, msg.ticket ≠ ⟨history.issued.length, second⟩ := by
    intro msg member same
    have := below msg member
    rw [same] at this
    exact Nat.lt_irrefl _ this
  have before : history.scheduler.Ordered fun i j =>
      i = first.ticket ∧ j = ⟨history.issued.length, second⟩ := by
    refine ⟨nonneg, List.Pairwise.imp_of_mem (fun {a b} memberA memberB _ => ?_)
      (List.pairwise_of_forall (fun _ _ => trivial))⟩
    exact ⟨fun put => absurd put.2 (absent b memberB), fun put => absent a memberA put.2⟩
  have issued : next.issued.length = history.issued.length + 1 := by
    obtain rfl := Option.some.inj taken
    exact List.length_append
  refine ⟨ordered_step before (show (Call.addMessage second).Fresh from fresh) taken
    fun msg same earlier member => ?_, ?_, ?_⟩
  · obtain rfl := Call.addMessage.inj same
    refine ⟨?_, ?_⟩
    · rintro ⟨isFirst, -⟩
      rw [consistent.eq_of_ticket (List.mem_append_right _ member)
        (List.mem_append_right _ pending) isFirst]
      exact Message.dominates_of_priority_le level (nonneg first pending) fresh
    · rintro ⟨-, isSecond⟩
      exact absent earlier member isSecond
  · have := below first pending
    omega
  · simp only [issued, Nat.lt_succ_self]

theorem Follows.run {first second : Ticket} (follows : Follows first second history)
    (fresh : ∀ call ∈ schedule, call.Fresh)
    (run : exec History.step history schedule = some last) : Follows first second last :=
  exec_invariant_along (Follows first second) (fun _ _ _ holds fresh => holds.step fresh) follows
    (along_of_forall_mem fresh _) run

theorem Follows.not_picked {first second : Ticket} (follows : Follows first second history)
    (different : first ≠ second) (pending : first ∈ history.pending.map Message.ticket)
    {out : Message Ticket} {rest : Scheduler Ticket}
    (picked : history.scheduler.getNextMessage = some (out, rest)) : out.ticket ≠ second := by
  obtain ⟨msg, member, rfl⟩ := List.mem_map.mp pending
  intro same
  exact follows.ordered.not_picked (fun ticket both => different (both.1.symm.trans both.2))
    member picked ⟨rfl, same⟩

/-- What every run from the empty scheduler keeps. -/
theorem started (fresh : ∀ call ∈ schedule, call.Fresh)
    (run : exec step initial schedule = some last) :
    last.Consistent ∧ ∀ msg ∈ last.pending, 0 ≤ msg.agingCounter := by
  refine ⟨consistent_run .initial run, ?_⟩
  have ordered : last.scheduler.Ordered fun _ _ => False :=
    exec_invariant_along (fun history => history.scheduler.Ordered fun _ _ => False)
      (fun _ _ _ ordered fresh taken =>
        ordered_step ordered fresh taken fun _ _ _ _ => ⟨False.elim, id⟩)
      Scheduler.Ordered.new (along_of_forall_mem fresh _) run
  exact ordered.nonneg

/-! ## Messages of one level -/

/-- Of two messages of one original priority, the one added first. -/
def SameLevelBefore (i j : Ticket) : Prop :=
  i.original.priority = j.original.priority ∧ i.serial < j.serial

/-- Whatever leaves later was added later, among tickets of one original priority. -/
def LeavesBefore (i j : Ticket) : Prop :=
  i.original.priority = j.original.priority → i.serial < j.serial

/-- Messages of equal original priority leave in the order they were added: each
message returned was added before every such message returned later or pending. -/
structure InOrder (history : History) : Prop where
  consistent : history.Consistent
  ordered : history.scheduler.Ordered SameLevelBefore
  pairwise : ((history.returned ++ history.pending).map Message.ticket).Pairwise LeavesBefore

theorem InOrder.initial : InOrder initial where
  consistent := .initial
  ordered := .new
  pairwise := .nil

/-- A pick moves a message that no message of its level stands before. -/
theorem InOrder.pick (inOrder : InOrder history) {out : Message Ticket} {rest : Scheduler Ticket}
    (picked : history.scheduler.getNextMessage = some (out, rest)) :
    ((history.returned ++ [out] ++ rest.pendingMessages).map Message.ticket).Pairwise
      LeavesBefore := by
  obtain ⟨front, back, split, remaining, _⟩ := Scheduler.getNextMessage_eq_some picked
  have pending : history.pending = front ++ out :: back := split
  have kept : rest.pendingMessages.map Message.ticket =
      front.map Message.ticket ++ back.map Message.ticket := by
    rw [remaining, List.map_map, ← List.map_append]
    rfl
  have levelFront : ∀ ticket ∈ front.map Message.ticket, LeavesBefore out.ticket ticket := by
    intro ticket member same
    obtain ⟨msg, inFront, rfl⟩ := List.mem_map.mp member
    have waiting : msg ∈ history.pending := by
      rw [pending]
      exact List.mem_append_left _ inFront
    have notBefore := inOrder.ordered.not_picked (fun _ put => Nat.lt_irrefl _ put.2) waiting picked
    have serials := inOrder.pairwise
    simp only [pending, List.map_append, List.map_cons, List.pairwise_append] at serials
    exact absurd ⟨same.symm, serials.2.1.2.2 _ member _ List.mem_cons_self same.symm⟩ notBefore
  have pairwise := inOrder.pairwise
  simp only [pending, List.map_append, List.map_cons, List.map_nil, kept, List.pairwise_append,
    List.pairwise_cons, List.mem_append, List.mem_cons] at pairwise ⊢
  obtain ⟨returned, ⟨inFront, ⟨outBack, inBack⟩, frontTail⟩, across⟩ := pairwise
  refine ⟨⟨returned, ⟨fun _ absent => (List.not_mem_nil absent).elim, List.Pairwise.nil⟩, ?_⟩,
    ⟨inFront, inBack, ?_⟩, ?_⟩
  · rintro i memberI j (rfl | absent)
    · exact across i memberI _ (Or.inr (Or.inl rfl))
    · cases absent
  · exact fun i memberI j memberJ => frontTail i memberI j (Or.inr memberJ)
  · rintro i (memberI | rfl | absent) j (inFront | inBack)
    · exact across i memberI j (Or.inl inFront)
    · exact across i memberI j (Or.inr (Or.inr inBack))
    · exact levelFront j inFront
    · exact outBack j inBack
    · cases absent
    · cases absent

theorem InOrder.step (inOrder : InOrder history) (fresh : call.Fresh)
    (taken : history.step call = some next) : InOrder next where
  consistent := inOrder.consistent.step taken
  ordered := by
    refine ordered_step inOrder.ordered fresh taken fun msg same earlier member => ?_
    subst same
    refine ⟨?_, ?_⟩
    · rintro ⟨level, -⟩
      have raised := (inOrder.consistent.intact earlier (List.mem_append_right _ member)).priority
      refine Message.dominates_of_priority_le ?_ (inOrder.ordered.nonneg earlier member) fresh
      rw [level] at raised
      exact raised
    · rintro ⟨-, later⟩
      exact absurd (inOrder.consistent.pending_serial_lt member) (Nat.lt_asymm later)
  pairwise := by
    rcases step_cases taken with ⟨msg, -, scheduler, -, returned⟩ | ⟨out, -, picked, -, returned⟩ |
      ⟨-, scheduler, -, returned⟩
    · rw [pending, scheduler, returned, Scheduler.addMessage_pendingMessages, ← List.append_assoc,
        List.map_append, List.pairwise_append]
      refine ⟨inOrder.pairwise, List.pairwise_singleton _ _, fun i memberI j memberJ _ => ?_⟩
      obtain ⟨earlier, member, rfl⟩ := List.mem_map.mp memberI
      rw [List.mem_singleton.mp memberJ]
      exact inOrder.consistent.serial_lt member
    · rw [returned]
      exact inOrder.pick picked
    · rw [returned, List.map_append, pending, scheduler, Scheduler.applyAging_tickets,
        ← List.map_append]
      exact inOrder.pairwise

theorem inOrder_run (fresh : ∀ call ∈ schedule, call.Fresh)
    (run : exec step initial schedule = some last) : InOrder last :=
  exec_invariant_along InOrder (fun _ _ _ holds fresh => holds.step fresh) .initial
    (along_of_forall_mem fresh _) run

/-! ## A message at the highest priority -/

/-- Among the messages returned, a ticket is one of the first `bound`, and those
before it have numbers below `limit`. -/
def LeftInTime (ticket : Ticket) (limit bound : ℕ) (out : List (Message Ticket)) : Prop :=
  ∃ before msg after, out = before ++ msg :: after ∧ msg.ticket = ticket ∧
    (∀ earlier ∈ before, earlier.ticket.serial < limit) ∧ before.length < bound

/-- A ticket waits at the highest priority: only messages numbered below `limit` can
be returned before it, and `bound` of them were returned or pend. -/
structure WaitsHigh (ticket : Ticket) (limit bound : ℕ) (out : List (Message Ticket))
    (history : History) : Prop where
  ordered : history.scheduler.Ordered fun i j => i = ticket ∧ limit ≤ j.serial
  waiting : ticket ∈ history.pending.map Message.ticket
  high : ∀ msg ∈ history.pending, msg.ticket = ticket → msg.priority = .high
  older : ∀ msg ∈ out, msg.ticket.serial < limit
  count : out.length +
    (history.pending.map Message.ticket).countP (fun i => decide (i.serial < limit)) = bound

theorem WaitsHigh.length_lt {ticket : Ticket} {limit bound : ℕ} {out : List (Message Ticket)}
    (waits : WaitsHigh ticket limit bound out history) (older : ticket.serial < limit) :
    out.length < bound := by
  have counted : 0 < (history.pending.map Message.ticket).countP
      fun i => decide (i.serial < limit) :=
    List.countP_pos_iff.mpr ⟨ticket, waits.waiting, decide_eq_true older⟩
  have := waits.count
  omega

theorem WaitsHigh.add {ticket : Ticket} {limit bound : ℕ} {out : List (Message Ticket)}
    (waits : WaitsHigh ticket limit bound out history) (older : ticket.serial < limit)
    (issued : limit ≤ history.issued.length) {msg : Message Unit} (fresh : msg.agingCounter = 0)
    (taken : history.step (.addMessage msg) = some next) :
    WaitsHigh ticket limit bound out next := by
  have pending : next.pending = history.pending ++ [msg.stamp history.issued.length] := by
    obtain rfl := Option.some.inj taken
    rfl
  have other : (msg.stamp history.issued.length).ticket ≠ ticket := by
    rintro rfl
    exact absurd older (not_lt.mpr issued)
  refine ⟨?_, ?_, ?_, waits.older, ?_⟩
  · refine ordered_step waits.ordered (show (Call.addMessage msg).Fresh from fresh) taken
      fun same msgEq earlier member => ?_
    obtain rfl := Call.addMessage.inj msgEq
    refine ⟨?_, ?_⟩
    · rintro ⟨isTicket, -⟩
      have level := waits.high earlier member isTicket
      refine Message.dominates_of_priority_le ?_ (waits.ordered.nonneg earlier member) fresh
      rw [level]
      exact (Priority.toInt_bounds _).2
    · exact fun put => other put.1
  · rw [pending, List.map_append]
    exact List.mem_append_left _ waits.waiting
  · intro later member isTicket
    rw [pending] at member
    rcases List.mem_append.mp member with earlier | last
    · exact waits.high later earlier isTicket
    · rw [List.mem_singleton.mp last] at isTicket
      exact absurd isTicket other
  · rw [pending, List.map_append, List.countP_append]
    have newer : ¬ history.issued.length < limit := not_lt.mpr issued
    simp only [List.map_cons, List.map_nil, Message.stamp_ticket, List.countP_cons, List.countP_nil,
      newer, decide_false, Bool.false_eq_true, ↓reduceIte, Nat.add_zero]
    exact waits.count

theorem WaitsHigh.applyAging {ticket : Ticket} {limit bound : ℕ} {out : List (Message Ticket)}
    (waits : WaitsHigh ticket limit bound out history)
    (taken : history.step .applyAging = some next) : WaitsHigh ticket limit bound out next := by
  obtain rfl := Option.some.inj taken
  have tickets := Scheduler.applyAging_tickets history.scheduler
  refine ⟨waits.ordered.applyAging, ?_, ?_, waits.older, ?_⟩
  · rw [pending, tickets]
    exact waits.waiting
  · intro msg member isTicket
    obtain ⟨earlier, waited, rfl⟩ := List.mem_map.mp member
    rw [Message.age_ticket] at isTicket
    have level := waits.high earlier waited isTicket
    rw [Message.age_of_not_boosted fun boosted => boosted.2 level]
    exact level
  · rw [pending, tickets]
    exact waits.count

/-- A pick returns the waiting message in time, or an older one. -/
theorem WaitsHigh.getNextMessage {ticket : Ticket} {limit bound : ℕ} {out : List (Message Ticket)}
    (waits : WaitsHigh ticket limit bound out history) (older : ticket.serial < limit)
    {picked : Message Ticket} {rest : Scheduler Ticket}
    (pick : history.scheduler.getNextMessage = some (picked, rest))
    (scheduler : next.scheduler = rest) :
    LeftInTime ticket limit bound (out ++ [picked]) ∨
      WaitsHigh ticket limit bound (out ++ [picked]) next := by
  subst scheduler
  by_cases isTicket : picked.ticket = ticket
  · exact Or.inl ⟨out, picked, [], rfl, isTicket, waits.older, waits.length_lt older⟩
  right
  have perm := Scheduler.pending_tickets_perm pick
  obtain ⟨msg, waited, named⟩ := List.mem_map.mp waits.waiting
  have pickedOlder : picked.ticket.serial < limit := by
    have notPut := waits.ordered.not_picked
      (fun i put => absurd (put.1 ▸ older) (not_lt.mpr put.2)) waited pick
    exact not_le.mp fun newer => notPut ⟨named, newer⟩
  refine ⟨waits.ordered.getNextMessage pick, ?_, ?_, ?_, ?_⟩
  · have remains := perm.subset waits.waiting
    exact (List.mem_cons.mp remains).resolve_left fun same => isTicket same.symm
  · intro later member same
    obtain ⟨earlier, waitedEarlier, rfl⟩ := Scheduler.mem_of_mem_next pick member
    exact waits.high earlier waitedEarlier same
  · intro msg member
    rcases List.mem_append.mp member with earlier | last
    · exact waits.older msg earlier
    · exact List.mem_singleton.mp last ▸ pickedOlder
  · have count := waits.count
    have moved := perm.countP_eq fun i => decide (i.serial < limit)
    simp only [List.countP_cons, pickedOlder, decide_true, ↓reduceIte] at moved
    rw [List.length_append, List.length_singleton]
    have same : (next.pending.map Message.ticket) =
      next.scheduler.pendingMessages.map Message.ticket := rfl
    have before : (history.pending.map Message.ticket) =
      history.scheduler.pendingMessages.map Message.ticket := rfl
    rw [same]
    rw [before] at count
    omega

/-- Since a ticket waited at the highest priority it left in time or still waits. -/
def SinceHigh (start : History) (ticket : Ticket) (history : History) : Prop :=
  start.issued.length ≤ history.issued.length ∧ ∃ out, history.returned = start.returned ++ out ∧
    (LeftInTime ticket start.issued.length start.pending.length out ∨
      WaitsHigh ticket start.issued.length start.pending.length out history)

theorem SinceHigh.step {start : History} {ticket : Ticket}
    (since : SinceHigh start ticket history) (older : ticket.serial < start.issued.length)
    (fresh : call.Fresh) (taken : history.step call = some next) :
    SinceHigh start ticket next := by
  obtain ⟨issued, out, returned, left | waits⟩ := since
  · refine ⟨issued.trans (issued_length_mono taken), ?_⟩
    obtain ⟨before, msg, after, rfl, named, others, length⟩ := left
    rcases step_cases taken with ⟨-, -, -, -, same⟩ | ⟨picked, -, -, -, longer⟩ | ⟨-, -, -, same⟩
    · exact ⟨_, same.trans returned, Or.inl ⟨before, msg, after, rfl, named, others, length⟩⟩
    · refine ⟨before ++ msg :: (after ++ [picked]), ?_,
        Or.inl ⟨before, msg, _, rfl, named, others, length⟩⟩
      rw [longer, returned]
      simp only [List.append_assoc, List.cons_append]
    · exact ⟨_, same.trans returned, Or.inl ⟨before, msg, after, rfl, named, others, length⟩⟩
  · refine ⟨issued.trans (issued_length_mono taken), ?_⟩
    rcases step_cases taken with ⟨msg, rfl, -, -, same⟩ | ⟨picked, rfl, pick, -, longer⟩ |
      ⟨rfl, -, -, same⟩
    · exact ⟨out, same.trans returned, Or.inr (waits.add older issued fresh taken)⟩
    · refine ⟨out ++ [picked], ?_, waits.getNextMessage older pick rfl⟩
      rw [longer, returned, List.append_assoc]
    · exact ⟨out, same.trans returned, Or.inr (waits.applyAging taken)⟩

/-- **A message at the highest priority** leaves before everything added later and
within as many picks as there were pending messages, itself included. -/
theorem sinceHigh_run {start : History} (consistent : start.Consistent)
    (nonneg : ∀ msg ∈ start.pending, 0 ≤ msg.agingCounter) {msg : Message Ticket}
    (waiting : msg ∈ start.pending) (high : msg.priority = .high)
    (fresh : ∀ call ∈ schedule, call.Fresh) (run : exec step start schedule = some last) :
    SinceHigh start msg.ticket last := by
  have below : ∀ other ∈ start.pending, other.ticket.serial < start.issued.length :=
    fun _ member => consistent.pending_serial_lt member
  refine exec_invariant_along (SinceHigh start msg.ticket)
    (fun _ _ _ since fresh => since.step (below msg waiting) fresh) ?_
    (along_of_forall_mem fresh _) run
  refine ⟨le_rfl, [], (List.append_nil _).symm, Or.inr ⟨⟨nonneg, ?_⟩, ?_, ?_, ?_, ?_⟩⟩
  · refine List.Pairwise.imp_of_mem (fun {a b} memberA memberB _ => ?_)
      (List.pairwise_of_forall (fun _ _ => trivial))
    exact ⟨fun put => absurd (below b memberB) (not_lt.mpr put.2),
      fun put => absurd (below a memberA) (not_lt.mpr put.2)⟩
  · exact List.mem_map_of_mem waiting
  · intro other member same
    rw [consistent.eq_of_ticket (List.mem_append_right _ member) (List.mem_append_right _ waiting)
      same]
    exact high
  · exact fun _ absent => (List.not_mem_nil absent).elim
  · rw [List.length_nil, Nat.zero_add, List.countP_eq_length.mpr, List.length_map]
    intro ticket member
    obtain ⟨other, waited, rfl⟩ := List.mem_map.mp member
    exact decide_eq_true (below other waited)

end History

/-- **The scheduler does not let messages overtake.** In any run of additions,
successful picks and aging rounds: a message added while another of at least its
priority is pending is not returned while that one still pends; messages of equal
original priority leave in the order they were added; and a message at the highest
priority with `k` others pending is one of the next `k + 1` returned, before
anything added later. -/
theorem nonOvertaking {earlier later : List Call} {s t : History}
    (fresh : ∀ call ∈ earlier ++ later, call.Fresh)
    (before : exec History.step .initial earlier = some s)
    (after : exec History.step s later = some t) :
    (∀ m ∈ s.pending, ∀ n rest, later = .addMessage n :: rest →
        n.priority.toInt ≤ m.priority.toInt → m.ticket ∈ t.pending.map Message.ticket →
          ∀ out next, t.scheduler.getNextMessage = some (out, next) →
            out.ticket ≠ ⟨s.issued.length, n⟩) ∧
      ((t.returned ++ t.pending).map Message.ticket).Pairwise History.LeavesBefore ∧
      ∀ m ∈ s.pending, m.priority = .high → ∀ k, s.pending.length = k + 1 →
        s.returned.length + (k + 1) ≤ t.returned.length →
          History.LeftInTime m.ticket s.issued.length (k + 1)
            (t.returned.drop s.returned.length) := by
  have freshEarlier : ∀ call ∈ earlier, call.Fresh :=
    fun call member => fresh call (List.mem_append_left _ member)
  have freshLater : ∀ call ∈ later, call.Fresh :=
    fun call member => fresh call (List.mem_append_right _ member)
  obtain ⟨consistent, nonneg⟩ := History.started freshEarlier before
  refine ⟨?_, ?_, ?_⟩
  · rintro m pending n rest rfl level waiting out next picked
    obtain ⟨middle, added, remaining⟩ := exec_cons_eq_some.mp after
    have follows := History.Follows.add consistent nonneg pending level
      (freshLater _ List.mem_cons_self) added
    refine (follows.run (fun call member => freshLater call (List.mem_cons_of_mem _ member))
      remaining).not_picked ?_ waiting picked
    intro same
    have below := consistent.pending_serial_lt pending
    rw [same] at below
    exact Nat.lt_irrefl _ below
  · exact (History.inOrder_run fresh (exec_append_eq_some.mpr ⟨s, before, after⟩)).pairwise
  · intro m pending high k others enough
    obtain ⟨-, out, returned, left | waits⟩ :=
      History.sinceHigh_run consistent nonneg pending high freshLater after
    · rw [returned, List.drop_left, ← others]
      exact left
    · have short := waits.length_lt (consistent.pending_serial_lt pending)
      rw [returned, List.length_append] at enough
      omega

/-- A low message waits while two high ones are returned around it; a second low
message does not pass it. -/
theorem nonOvertaking_lowAndHigh :
    let low := Message.create 1 2 "" .low 1 ""
    let high := Message.create 1 2 "" .high 2 ""
    ∃ s t out next, exec History.step .initial [.addMessage high, .addMessage low] = some s ∧
      exec History.step s [.addMessage low, .addMessage high, .getNextMessage, .getNextMessage] =
        some t ∧
      t.scheduler.getNextMessage = some (out, next) ∧ out.ticket ≠ ⟨2, low⟩ ∧
      ((t.returned ++ t.pending).map Message.ticket).Pairwise History.LeavesBefore ∧
      History.LeftInTime ⟨0, high⟩ 2 2 t.returned := by
  intro low high
  have fresh : ∀ call ∈ [Call.addMessage high, .addMessage low] ++
      [.addMessage low, .addMessage high, .getNextMessage, .getNextMessage], call.Fresh := by decide
  obtain ⟨notPicked, inOrder, inTime⟩ := nonOvertaking fresh rfl rfl
  refine ⟨_, _, _, _, rfl, rfl, rfl, ?_, inOrder, ?_⟩
  · exact notPicked (low.stamp 1) (by decide) low _ rfl (by decide) (by decide) _ _ rfl
  · exact inTime (high.stamp 0) (by decide) rfl 1 rfl (by decide)

end MessagePassing
