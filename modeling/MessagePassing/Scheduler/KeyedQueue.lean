import MessagePassing.Foundation.StableQueue
import MessagePassing.Scheduler.Order

/-! # A stable queue between aging rounds

Each pick adds one to every score left, so between aging rounds all scores drift alike and
only their differences matter. Seen from the start, a message has a fixed key: its score when
it came, less the picks made before. The scheduler is a stable queue by these keys
(`KeyedQueue.session_run`): a pick returns the first message of the largest key, and which of two
pending messages is ahead never changes (`stableBetweenAging`).
-/

namespace MessagePassing

open StableQueue

variable {ι : Type}

/-! ## The calls between aging rounds -/

inductive SessionCall (ι : Type)
  | addMessage (msg : Message ι)
  | getNextMessage

/-- A scheduler and the messages it returned. -/
structure Session (ι : Type) where
  scheduler : Scheduler ι
  returned : List (Message ι)

namespace Session

/-- One call; nothing happens when nothing is pending. -/
def step (session : Session ι) : SessionCall ι → Session ι
  | .addMessage msg => { session with scheduler := session.scheduler.addMessage msg }
  | .getNextMessage =>
      match session.scheduler.getNextMessage with
      | some (out, next) => { scheduler := next, returned := session.returned ++ [out] }
      | none => session

/-- The session after some calls. -/
def run (scheduler : Scheduler ι) (calls : List (SessionCall ι)) : Session ι :=
  calls.foldl step { scheduler := scheduler, returned := [] }

end Session

/-! ## Fixed keys -/

/-- A message as it was at the start, or when it was added: with its place in order of
insertion, and the picks made before. -/
structure Entry (ι : Type) where
  msg : Message ι
  serial : ℕ
  picks : ℕ

namespace Entry

def key (entry : Entry ι) : ℤ := entry.msg.score - entry.picks

/-- The message after this number of picks, skipped by those made since it came. -/
def now (picks : ℕ) (entry : Entry ι) : Message ι :=
  { entry.msg with agingCounter := entry.msg.agingCounter + (picks - entry.picks) }

/-- The larger key is ahead, and of two the same the one inserted earlier. -/
def Ahead (a b : Entry ι) : Prop := b.key < a.key ∨ b.key = a.key ∧ a.serial < b.serial

theorem score_now (entry : Entry ι) (picks : ℕ) : (entry.now picks).score = entry.key + picks := by
  unfold key Message.score
  simp only [now]
  omega

/-- At first the message is as it came. -/
theorem now_mk (msg : Message ι) (serial picks : ℕ) : now picks ⟨msg, serial, picks⟩ = msg := by
  rw [now, sub_self, add_zero]

theorem skip_now (entry : Entry ι) (picks : ℕ) :
    (entry.now picks).skip = entry.now (picks + 1) := by
  simp only [now, Message.skip, Message.mk.injEq, true_and, and_true]
  push_cast
  omega

end Entry

/-- The entries in order of insertion, and those taken out. -/
structure KeyedQueue (ι : Type) where
  entries : List (Entry ι)
  returned : List (Entry ι)

namespace KeyedQueue

/-- The pending messages at the start. -/
def start (messages : List (Message ι)) : KeyedQueue ι where
  entries := messages.mapIdx fun serial msg => ⟨msg, serial, 0⟩
  returned := []

def step (queue : KeyedQueue ι) : SessionCall ι → KeyedQueue ι
  | .addMessage msg =>
      { queue with
        entries := queue.entries ++
          [⟨msg, queue.returned.length + queue.entries.length, queue.returned.length⟩] }
  | .getNextMessage =>
      match takeMax Entry.key queue.entries with
      | some (entry, others) => { entries := others, returned := queue.returned ++ [entry] }
      | none => queue

def run (messages : List (Message ι)) (calls : List (SessionCall ι)) : KeyedQueue ι :=
  calls.foldl step (start messages)

/-- The scheduler's view of the queue: each message as often skipped as it was. -/
def session (agingEventCount : ℕ) (queue : KeyedQueue ι) : Session ι where
  scheduler :=
    { pendingMessages := queue.entries.map (Entry.now queue.returned.length)
      agingEventCount := agingEventCount }
  returned := queue.returned.mapIdx Entry.now

end KeyedQueue

/-! ## The scheduler is such a queue -/

/-- A pick takes out the first message of the largest score and skips the others. -/
theorem Scheduler.getNextMessage_eq_takeMax (scheduler : Scheduler ι) :
    scheduler.getNextMessage = (takeMax Message.score scheduler.pendingMessages).map
      fun (out, others) =>
        (out, { scheduler with pendingMessages := others.map Message.skip }) := by
  cases picked : scheduler.getNextMessage with
  | none =>
      rw [getNextMessage_eq_none.mp picked]
      rfl
  | some result =>
      obtain ⟨out, pendingMessages, agingEventCount⟩ := result
      obtain ⟨front, back, split, rest, count, below, above⟩ := getNextMessage_eq_some picked
      obtain rfl : pendingMessages = _ := rest
      obtain rfl : agingEventCount = _ := count
      rw [split, takeMax_of_split below above]
      rfl

namespace KeyedQueue

variable {queue : KeyedQueue ι}

theorem session_start (scheduler : Scheduler ι) :
    (start scheduler.pendingMessages).session scheduler.agingEventCount =
      { scheduler := scheduler, returned := [] } := by
  have same : (start scheduler.pendingMessages).entries.map (Entry.now 0) =
      scheduler.pendingMessages := by
    apply List.ext_getElem
    · rw [start, List.length_map, List.length_mapIdx]
    · intro i _ _
      simp only [start, List.getElem_map, List.getElem_mapIdx]
      exact Entry.now_mk _ _ _
  rw [session]
  change Session.mk ⟨(start scheduler.pendingMessages).entries.map (Entry.now 0), _⟩ [] = _
  rw [same]

/-- All scores are the keys and the picks so far, so they compare as the keys do. -/
theorem getNextMessage_session (agingEventCount : ℕ) (queue : KeyedQueue ι) :
    (queue.session agingEventCount).scheduler.getNextMessage =
      (takeMax Entry.key queue.entries).map fun (entry, others) =>
        (entry.now queue.returned.length,
          { pendingMessages := others.map (Entry.now (queue.returned.length + 1))
            agingEventCount := agingEventCount }) := by
  have alike : takeMax (Message.score ∘ Entry.now queue.returned.length) queue.entries =
      takeMax Entry.key queue.entries := by
    apply takeMax_congr
    intro a b
    rw [Function.comp_apply, Function.comp_apply, Entry.score_now, Entry.score_now]
    omega
  rw [Scheduler.getNextMessage_eq_takeMax, session, takeMax_map, alike, Option.map_map]
  apply Option.map_congr
  rintro ⟨entry, others⟩ -
  simp only [Function.comp_apply, Prod.map_apply, List.map_map]
  congr 2
  exact List.map_congr_left fun other _ => other.skip_now _

/-- **Simulation.** A call does to the scheduler's view what it does to the queue. -/
theorem step_session (agingEventCount : ℕ) (queue : KeyedQueue ι) (call : SessionCall ι) :
    (queue.session agingEventCount).step call = (queue.step call).session agingEventCount := by
  cases call with
  | addMessage msg =>
      simp only [session, Session.step, step, Scheduler.addMessage, List.map_append,
        List.map_singleton]
      rw [Entry.now_mk]
  | getNextMessage =>
      simp only [Session.step, step, getNextMessage_session]
      cases first : takeMax Entry.key queue.entries with
      | none => rfl
      | some result =>
          simp only [Option.map_some, session, List.length_append, List.length_singleton,
            List.mapIdx_append, List.mapIdx_cons, List.mapIdx_nil, Nat.zero_add]

theorem session_run (scheduler : Scheduler ι) (calls : List (SessionCall ι)) :
    Session.run scheduler calls =
      (run scheduler.pendingMessages calls).session scheduler.agingEventCount := by
  rw [Session.run, ← session_start scheduler, run]
  exact List.foldl_hom (session scheduler.agingEventCount) (step_session _)

/-! ## The order of the entries -/

/-- Entries are numbered in order of insertion. -/
structure Numbered (queue : KeyedQueue ι) : Prop where
  increasing : queue.entries.Pairwise fun a b => a.serial < b.serial
  bounded : ∀ entry ∈ queue.entries, entry.serial < queue.returned.length + queue.entries.length

theorem numbered_start (messages : List (Message ι)) : (start messages).Numbered where
  increasing := by
    rw [List.pairwise_iff_getElem]
    intro i j inside alsoInside before
    simp only [start, List.getElem_mapIdx]
    exact before
  bounded := by
    intro entry member
    obtain ⟨i, inside, rfl⟩ := List.getElem_of_mem member
    simp only [start, List.getElem_mapIdx, List.length_nil, Nat.zero_add]
    exact inside

theorem Numbered.step (numbered : queue.Numbered) (call : SessionCall ι) :
    (queue.step call).Numbered := by
  obtain ⟨increasing, bounded⟩ := numbered
  cases call with
  | addMessage msg =>
      refine ⟨?_, ?_⟩
      · rw [KeyedQueue.step, List.pairwise_append]
        refine ⟨increasing, List.pairwise_singleton _ _, fun entry member last isLast => ?_⟩
        rw [List.mem_singleton.mp isLast]
        exact bounded entry member
      · intro entry member
        simp only [KeyedQueue.step, List.length_append, List.length_singleton]
        rcases List.mem_append.mp member with earlier | last
        · have := bounded entry earlier
          omega
        · rw [List.mem_singleton.mp last]
          dsimp only
          omega
  | getNextMessage =>
      cases taken : takeMax Entry.key queue.entries with
      | none =>
          simp only [KeyedQueue.step, taken]
          exact ⟨increasing, bounded⟩
      | some result =>
          obtain ⟨first, others⟩ := result
          obtain ⟨front, back, split, rfl, -⟩ := takeMax_split taken
          have kept : (front ++ back).Sublist queue.entries := by
            rw [split]
            exact List.Sublist.append_left (List.sublist_cons_self first back) front
          simp only [KeyedQueue.step, taken]
          refine ⟨increasing.sublist kept, fun entry member => ?_⟩
          have below := bounded entry (kept.subset member)
          rw [split] at below
          simp only [List.length_append, List.length_cons, List.length_nil] at below ⊢
          omega

theorem numbered_run (messages : List (Message ι)) (calls : List (SessionCall ι)) :
    (run messages calls).Numbered := by
  have kept (queue : KeyedQueue ι) (numbered : queue.Numbered) :
      (calls.foldl step queue).Numbered := by
    induction calls generalizing queue with
    | nil => exact numbered
    | cons call rest ih => exact ih _ (numbered.step call)
  exact kept _ (numbered_start messages)

/-- The messages are picked in the order of their entries. -/
theorem pickedBefore_iff (numbered : queue.Numbered) (picks i j : ℕ) {a b : Entry ι}
    (atI : queue.entries[i]? = some a) (atJ : queue.entries[j]? = some b) :
    PickedBefore (queue.entries.map (Entry.now picks)) i j ↔ a.Ahead b := by
  have earlier : i < j ↔ a.serial < b.serial := by
    obtain ⟨insideI, rfl⟩ := List.getElem?_eq_some_iff.mp atI
    obtain ⟨insideJ, rfl⟩ := List.getElem?_eq_some_iff.mp atJ
    have increasing := List.pairwise_iff_getElem.mp numbered.increasing
    refine ⟨?_, ?_⟩
    · exact increasing i j insideI insideJ
    · intro less
      by_contra notBefore
      rcases Nat.lt_or_eq_of_le (not_lt.mp notBefore) with after | same
      · exact absurd (increasing j i insideJ insideI after) (Nat.lt_asymm less)
      · subst same
        exact Nat.lt_irrefl _ less
  have nowI : (queue.entries.map (Entry.now picks))[i]? = some (a.now picks) := by
    rw [List.getElem?_map, atI]
    rfl
  have nowJ : (queue.entries.map (Entry.now picks))[j]? = some (b.now picks) := by
    rw [List.getElem?_map, atJ]
    rfl
  rw [Entry.Ahead, ← earlier]
  refine ⟨?_, ?_⟩
  · rintro ⟨first, second, atFirst, atSecond, ahead⟩
    obtain rfl := Option.some.inj (nowI.symm.trans atFirst)
    obtain rfl := Option.some.inj (nowJ.symm.trans atSecond)
    rw [Entry.score_now, Entry.score_now] at ahead
    omega
  · intro ahead
    refine ⟨_, _, nowI, nowJ, ?_⟩
    rw [Entry.score_now, Entry.score_now]
    omega

/-- The entry taken out is ahead of all others. -/
theorem takeMax_ahead (numbered : queue.Numbered) {entry : Entry ι} {others : List (Entry ι)}
    (taken : takeMax Entry.key queue.entries = some (entry, others)) :
    entry ∈ queue.entries ∧ ∀ other ∈ queue.entries, other ≠ entry → entry.Ahead other := by
  obtain ⟨front, back, split, -, below, above⟩ := takeMax_split taken
  have increasing := numbered.increasing
  rw [split, List.pairwise_append, List.pairwise_cons] at increasing
  rw [split]
  refine ⟨List.mem_append_right _ List.mem_cons_self, fun other member different => ?_⟩
  rcases List.mem_append.mp member with inFront | inTail
  · exact Or.inl (below other inFront)
  · have inBack := (List.mem_cons.mp inTail).resolve_left different
    rcases lt_or_eq_of_le (above other inBack) with lower | same
    · exact Or.inl lower
    · exact Or.inr ⟨same, increasing.2.1.1 other inBack⟩

/-! ## Draining -/

/-- As many picks as there are entries take out all of them, in the order of the drain. -/
theorem foldl_getNextMessage (n : ℕ) (queue : KeyedQueue ι) (size : queue.entries.length = n) :
    (List.replicate n SessionCall.getNextMessage).foldl step queue =
      { entries := [], returned := queue.returned ++ drain Entry.key n queue.entries } := by
  induction n generalizing queue with
  | zero =>
      obtain ⟨entries, returned⟩ := queue
      obtain rfl : entries = [] := List.eq_nil_of_length_eq_zero size
      rw [drain, List.append_nil]
      rfl
  | succ n ih =>
      obtain ⟨entry, others, taken⟩ :=
        exists_takeMax Entry.key (List.ne_nil_of_length_eq_add_one size)
      have shorter : others.length = n := by
        obtain ⟨front, back, split, rfl, -⟩ := takeMax_split taken
        rw [split, List.length_append, List.length_cons] at size
        rw [List.length_append]
        omega
      rw [List.replicate_succ, List.foldl_cons]
      simp only [step, taken, drain]
      rw [ih _ shorter, List.append_assoc, List.singleton_append]

end KeyedQueue

/-! ## Both together -/

theorem KeyedQueue.start_messages (messages : List (Message ι)) :
    (start messages).entries.map Entry.msg = messages := by
  apply List.ext_getElem
  · rw [List.length_map, start, List.length_mapIdx]
  · intro i _ _
    simp only [start, List.getElem_map, List.getElem_mapIdx]

theorem KeyedQueue.start_picks {messages : List (Message ι)} {entry : Entry ι}
    (member : entry ∈ (start messages).entries) : entry.picks = 0 := by
  obtain ⟨i, inside, rfl⟩ := List.getElem_of_mem member
  simp only [start, List.getElem_mapIdx]

/-- The stable sort of messages by decreasing score, each as often skipped as messages stand
before it. -/
def sortedByScore (messages : List (Message ι)) : List (Message ι) :=
  (messages.mergeSort fun a b => decide (b.score ≤ a.score)).mapIdx fun picks msg =>
    { msg with agingCounter := msg.agingCounter + picks }

/-- Draining the scheduler sorts what is pending. -/
theorem Session.drain (scheduler : Scheduler ι) :
    Session.run scheduler (List.replicate scheduler.pendingMessages.length .getNextMessage) =
      { scheduler := { scheduler with pendingMessages := [] }
        returned := sortedByScore scheduler.pendingMessages } := by
  have size : (KeyedQueue.start scheduler.pendingMessages).entries.length =
      scheduler.pendingMessages.length := List.length_mapIdx
  rw [KeyedQueue.session_run, KeyedQueue.run, KeyedQueue.foldl_getNextMessage _ _ size, ← size,
    drain_eq_mergeSort]
  have sorted : ((KeyedQueue.start scheduler.pendingMessages).entries.mergeSort fun a b =>
        decide (b.key ≤ a.key)).map Entry.msg =
      scheduler.pendingMessages.mergeSort fun a b => decide (b.score ≤ a.score) := by
    rw [List.map_mergeSort (s := fun a b => decide (b.score ≤ a.score)),
      KeyedQueue.start_messages]
    intro a memberA b memberB
    simp only [Entry.key, KeyedQueue.start_picks memberA, KeyedQueue.start_picks memberB,
      Int.natCast_zero, sub_zero]
  have returned : ((KeyedQueue.start scheduler.pendingMessages).entries.mergeSort fun a b =>
      decide (b.key ≤ a.key)).mapIdx Entry.now = sortedByScore scheduler.pendingMessages := by
    apply List.ext_getElem
    · rw [sortedByScore, ← sorted, List.length_mapIdx, List.length_mapIdx, List.length_map]
    · intro i inside _
      rw [List.length_mapIdx] at inside
      have unskipped := KeyedQueue.start_picks (List.mem_mergeSort.mp (List.getElem_mem inside))
      simp only [sortedByScore, ← sorted, List.getElem_mapIdx, List.getElem_map, Entry.now,
        unskipped, Int.natCast_zero, sub_zero]
  rw [← returned]
  rfl

/-- **A stable queue between aging rounds.** From any pending list, after any additions and
picks: what is pending are the entries of a queue with fixed keys, each message skipped by
the picks since it came; the messages returned are those taken out of it; when anything is
pending, the next pick returns the message of the entry with the largest key, inserted
before all others of this key; whatever calls follow, it stays the same which of two
messages is ahead as long as both are pending; and draining returns the stable sort by
decreasing score. -/
theorem stableBetweenAging (scheduler : Scheduler ι) (calls : List (SessionCall ι)) :
    let session := Session.run scheduler calls
    let queue := KeyedQueue.run scheduler.pendingMessages calls
    session.scheduler.pendingMessages = queue.entries.map (Entry.now queue.returned.length) ∧
      session.returned = queue.returned.mapIdx Entry.now ∧
      (session.scheduler.pendingMessages ≠ [] → ∃ entry ∈ queue.entries,
        (∀ other ∈ queue.entries, other ≠ entry → entry.Ahead other) ∧
          ∃ next, session.scheduler.getNextMessage =
            some (entry.now queue.returned.length, next)) ∧
      (∀ later i j k l a b, queue.entries[i]? = some a → queue.entries[j]? = some b →
        (KeyedQueue.run scheduler.pendingMessages (calls ++ later)).entries[k]? = some a →
        (KeyedQueue.run scheduler.pendingMessages (calls ++ later)).entries[l]? = some b →
          (PickedBefore session.scheduler.pendingMessages i j ↔ PickedBefore
            (Session.run scheduler (calls ++ later)).scheduler.pendingMessages k l)) ∧
      Session.run scheduler (List.replicate scheduler.pendingMessages.length .getNextMessage) =
        { scheduler := { scheduler with pendingMessages := [] }
          returned := sortedByScore scheduler.pendingMessages } := by
  intro session queue
  have simulated : session = queue.session scheduler.agingEventCount :=
    KeyedQueue.session_run scheduler calls
  have numbered (calls : List (SessionCall ι)) := KeyedQueue.numbered_run
    scheduler.pendingMessages calls
  refine ⟨by rw [simulated]; rfl, by rw [simulated]; rfl, fun pending => ?_,
    fun later i j k l a b atI atJ atK atL => ?_, Session.drain scheduler⟩
  · have nonempty : queue.entries ≠ [] := by
      intro empty
      apply pending
      rw [simulated, KeyedQueue.session, empty]
      rfl
    obtain ⟨entry, others, taken⟩ := exists_takeMax Entry.key nonempty
    obtain ⟨member, ahead⟩ := KeyedQueue.takeMax_ahead (numbered calls) taken
    refine ⟨entry, member, ahead, ?_⟩
    rw [simulated, KeyedQueue.getNextMessage_session, taken]
    exact ⟨_, rfl⟩
  · rw [simulated, KeyedQueue.session_run]
    exact (KeyedQueue.pickedBefore_iff (numbered calls) _ i j atI atJ).trans
      (KeyedQueue.pickedBefore_iff (numbered (calls ++ later)) _ k l atK atL).symm

end MessagePassing
