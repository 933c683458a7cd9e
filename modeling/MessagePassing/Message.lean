import MessagePassing.Foundation.Selection
import Mathlib.Data.Prod.Lex
import Mathlib.Algebra.Order.Group.Int

/-! # Messages, priorities and the inbox comparator

The shared constants and enumerations, the message record and the comparator that
orders every inbox. Integers are unbounded. A message carries one value the
program does not have, its ticket: copies of a message keep it and no operation
reads it, so it identifies the message a copy stems from. The program itself is
the model at tickets in `Unit`.

`MessageComparator` compares lexicographically by priority and then by aging
counter (`MessagePassing.messageComparator_iff`), hence is a strict weak order on
all messages (`MessagePassing.messageComparator_isStrictWeakOrder`).
-/

namespace MessagePassing

namespace Config

/-- The most messages an inbox holds. -/
def maxQueueSize : ℕ := 20

/-- The skips after which aging raises a priority. -/
def agingThreshold : ℤ := 5

end Config

inductive Priority
  | low
  | medium
  | high
  deriving DecidableEq, Repr

namespace Priority

/-- `static_cast<int>` of a priority. -/
def toInt : Priority → ℤ
  | low => 1
  | medium => 2
  | high => 3

theorem toInt_bounds (priority : Priority) : 1 ≤ priority.toInt ∧ priority.toInt ≤ 3 := by
  cases priority <;> decide

theorem eq_high_iff (priority : Priority) : priority = high ↔ priority.toInt = 3 := by
  cases priority <;> decide

end Priority

def priorityToString : Priority → String
  | .high => "HIGH"
  | .medium => "MEDIUM"
  | .low => "LOW"

/-- A message, and the ticket identifying the one it is a copy of. -/
structure Message (ι : Type) where
  senderID : ℤ
  receiverID : ℤ
  text : String
  priority : Priority
  timestamp : String
  messageID : ℤ
  agingCounter : ℤ
  ticket : ι
  deriving DecidableEq

namespace Message

variable {ι κ : Type}

/-- The constructor used for every message sent; the clock is an argument. -/
def create (sender receiver : ℤ) (msg : String) (prio : Priority) (id : ℤ) (timestamp : String) :
    Message Unit where
  senderID := sender
  receiverID := receiver
  text := msg
  priority := prio
  timestamp := timestamp
  messageID := id
  agingCounter := 0
  ticket := ()

/-- The default constructor, the sentinel of an interrupted receive. -/
def default [Inhabited ι] : Message ι where
  senderID := 0
  receiverID := 0
  text := ""
  priority := .low
  timestamp := ""
  messageID := 0
  agingCounter := 0
  ticket := Inhabited.default

/-- The same message under another ticket. -/
def withTicket (msg : Message ι) (ticket : κ) : Message κ where
  senderID := msg.senderID
  receiverID := msg.receiverID
  text := msg.text
  priority := msg.priority
  timestamp := msg.timestamp
  messageID := msg.messageID
  agingCounter := msg.agingCounter
  ticket := ticket

def toString (msg : Message ι) : String :=
  "[MSG#" ++ ToString.toString msg.messageID ++ " | P" ++ ToString.toString msg.senderID ++
    "->P" ++ ToString.toString msg.receiverID ++ " | " ++ priorityToString msg.priority ++
    " | " ++ msg.timestamp ++ " | \"" ++ msg.text ++ "\"]"

/-- The order in which an inbox ranks messages. -/
def rank (msg : Message ι) : ℤ ×ₗ ℤ := toLex (msg.priority.toInt, msg.agingCounter)

/-- What a message keeps on its way: everything but the priority, which may rise,
and the aging counter. -/
structure Carries (sent : Message κ) (msg : Message ι) : Prop where
  senderID : msg.senderID = sent.senderID
  receiverID : msg.receiverID = sent.receiverID
  text : msg.text = sent.text
  timestamp : msg.timestamp = sent.timestamp
  messageID : msg.messageID = sent.messageID
  priority : sent.priority.toInt ≤ msg.priority.toInt

theorem Carries.refl (msg : Message ι) : Carries msg msg :=
  ⟨rfl, rfl, rfl, rfl, rfl, le_refl _⟩

theorem Carries.trans {sent : Message κ} {first second : Message ι} (before : Carries sent first)
    (after : Carries first second) : Carries sent second where
  senderID := after.senderID.trans before.senderID
  receiverID := after.receiverID.trans before.receiverID
  text := after.text.trans before.text
  timestamp := after.timestamp.trans before.timestamp
  messageID := after.messageID.trans before.messageID
  priority := before.priority.trans after.priority

end Message

/-- The identity of one send: its number and what was sent. -/
structure Ticket where
  serial : ℕ
  original : Message Unit
  deriving DecidableEq

namespace Message

/-- A message as it is sent under the next free number. -/
def stamp (msg : Message Unit) (serial : ℕ) : Message Ticket := msg.withTicket ⟨serial, msg⟩

/-- A copy that kept what was sent. -/
def Intact (msg : Message Ticket) : Prop := Carries msg.ticket.original msg

@[simp] theorem stamp_ticket (msg : Message Unit) (serial : ℕ) :
    (msg.stamp serial).ticket = ⟨serial, msg⟩ := rfl

@[simp] theorem stamp_priority (msg : Message Unit) (serial : ℕ) :
    (msg.stamp serial).priority = msg.priority := rfl

@[simp] theorem stamp_agingCounter (msg : Message Unit) (serial : ℕ) :
    (msg.stamp serial).agingCounter = msg.agingCounter := rfl

theorem intact_stamp (msg : Message Unit) (serial : ℕ) : (msg.stamp serial).Intact :=
  ⟨rfl, rfl, rfl, rfl, rfl, le_refl _⟩

end Message

variable {ι : Type}

def MessageComparator (a b : Message ι) : Bool :=
  if a.priority.toInt = b.priority.toInt then a.agingCounter < b.agingCounter
  else a.priority.toInt < b.priority.toInt

/-- The comparator is the lexicographic order of priority and aging counter. -/
theorem messageComparator_iff (a b : Message ι) :
    MessageComparator a b = true ↔ a.rank < b.rank := by
  unfold MessageComparator Message.rank
  rw [Prod.Lex.toLex_lt_toLex]
  split
  · rename_i same
    simp only [same, lt_self_iff_false, true_and, false_or, decide_eq_true_eq]
  · rename_i different
    simp only [different, false_and, or_false, decide_eq_true_eq]

/-- The comparator is a strict weak order on all messages. -/
instance messageComparator_isStrictWeakOrder :
    IsStrictWeakOrder (Message ι) (fun a b => MessageComparator a b = true) :=
  Selection.isStrictWeakOrder_of_rank Message.rank messageComparator_iff

end MessagePassing
