/-!
# Bounded broadcast channel

Every subscriber sees every message sent after it subscribed, in order, unless it falls behind: only
the last `capacity` messages are kept, and a subscriber that needs an older one is told how many it
lost and goes on with the oldest message that is left.  The capacity is a power of two.

Messages are numbered from zero in the order of sending; a subscriber is the number of the next
message it wants.
-/

namespace ProjectIndex

/-- What a subscriber gets when it asks for the next message. -/
inductive Receipt (α : Type) where
  | message (a : α)
  /-- So many messages were lost. -/
  | lagged (missed : Nat)
  /-- Nothing new. -/
  | empty
  /-- Nothing new, and nothing will come. -/
  | closed
  /-- There is no such subscriber any more. -/
  | dropped
  deriving DecidableEq, Repr

structure Broadcast (α : Type) where
  capacity : Nat
  /-- The last messages, oldest first, at most `capacity` of them. -/
  kept : List α := []
  /-- The number of the next message to be sent. -/
  next : Nat := 0
  /-- For each subscriber the number of the message it wants; `none` once it is gone. -/
  subscribers : List (Option Nat) := []
  closed : Bool := false

namespace Broadcast

variable {α : Type}

/-- The least power of two that is not below `n` and not below one. -/
def roundUp (n : Nat) : Nat :=
  go n 1
where
  /-- Doubles at most `fuel` times. -/
  go : Nat → Nat → Nat
    | 0, size => size
    | fuel + 1, size => if n ≤ size then size else go fuel (2 * size)

/-- A channel without subscribers that keeps at least `capacity` messages. -/
def create (capacity : Nat) : Broadcast α :=
  { capacity := roundUp capacity }

def subscriberCount (b : Broadcast α) : Nat :=
  b.subscribers.countP Option.isSome

/-- A new subscriber, which sees only later messages, and its number. -/
def subscribe (b : Broadcast α) : Broadcast α × Nat :=
  ({ b with subscribers := b.subscribers ++ [some b.next] }, b.subscribers.length)

def unsubscribe (b : Broadcast α) (i : Nat) : Broadcast α :=
  { b with subscribers := b.subscribers.set i none }

/-- Sends a message.  Without a subscriber it is lost. -/
def send (b : Broadcast α) (a : α) : Broadcast α :=
  if b.subscriberCount = 0 then b
  else
    let kept := b.kept ++ [a]
    { b with kept := kept.drop (kept.length - b.capacity), next := b.next + 1 }

def close (b : Broadcast α) : Broadcast α :=
  { b with closed := true }

def oldest (b : Broadcast α) : Nat :=
  b.next - b.kept.length

/-- The next message for subscriber `i`. -/
def receive (b : Broadcast α) (i : Nat) : Broadcast α × Receipt α :=
  match b.subscribers[i]? with
  | some (some wanted) =>
    let moved (n : Nat) : Broadcast α := { b with subscribers := b.subscribers.set i (some n) }
    if wanted = b.next then (b, if b.closed then .closed else .empty)
    else if wanted < b.oldest then (moved b.oldest, .lagged (b.oldest - wanted))
    else
      match b.kept[wanted - b.oldest]? with
      | some a => (moved (wanted + 1), .message a)
      | none => (b, .empty)
  | _ => (b, .dropped)

/-- Everything subscriber `i` gets until nothing is left. -/
def drain (b : Broadcast α) (i : Nat) : Broadcast α × List (Receipt α) :=
  go (b.kept.length + 1) b []
where
  /-- Receives at most `fuel` times. -/
  go : Nat → Broadcast α → List (Receipt α) → Broadcast α × List (Receipt α)
    | 0, b, got => (b, got.reverse)
    | fuel + 1, b, got =>
      match b.receive i with
      | (b, .message a) => go fuel b (.message a :: got)
      | (b, .lagged n) => go fuel b (.lagged n :: got)
      | (b, _) => (b, got.reverse)

def describe (b : Broadcast α) : String :=
  "EventBus \x7b subscribers: " ++ toString b.subscriberCount ++ " \x7d"

end Broadcast

end ProjectIndex
