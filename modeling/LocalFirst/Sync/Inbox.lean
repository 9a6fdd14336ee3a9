/-!
# Inboxes

A receiver of broadcast messages keeps as many of them as its capacity allows.
When a message comes to a full inbox, the oldest one is lost; the receiver
learns how many it has lost before it reads the next message.
-/

universe u

namespace LocalFirst

structure Inbox (α : Type u) where
  capacity : Nat
  lost : Nat
  waiting : List α

/-- What a receiver reads. -/
inductive Delivery (α : Type u) where
  | lagged (count : Nat)
  | message (content : α)

namespace Inbox

variable {α : Type u}

/-- An empty inbox.  Its capacity is at least one, and a power of two. -/
def ofCapacity (capacity : Nat) : Inbox α :=
  ⟨(Nat.max capacity 1).nextPowerOfTwo, 0, []⟩

def receive (inbox : Inbox α) (content : α) : Inbox α :=
  if inbox.waiting.length < inbox.capacity then
    { inbox with waiting := inbox.waiting ++ [content] }
  else
    { inbox with lost := inbox.lost + 1, waiting := inbox.waiting.drop 1 ++ [content] }

/-- Everything there is to read, in order. -/
def deliveries (inbox : Inbox α) : List (Delivery α) :=
  (if inbox.lost = 0 then [] else [.lagged inbox.lost]) ++ inbox.waiting.map .message

/-- The inbox after everything has been read. -/
def emptied (inbox : Inbox α) : Inbox α :=
  { inbox with lost := 0, waiting := [] }

end Inbox

end LocalFirst
