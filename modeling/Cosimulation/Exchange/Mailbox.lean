import Cosimulation.Wire.Bytes

/-!
# Mailboxes and endpoints

A mailbox holds the messages that were sent and not yet taken, in the order of sending. A message is
found under its source, its destination and its tag; of several the oldest is taken, so that each
such key works as a queue of its own. Messages may be addressed to any rank, whether or not anyone
will take them.

An endpoint is one process that sends and receives. A receive takes its message also when the length
of the message then turns out to be wrong. A process on its own has an endpoint too: what it sends
vanishes, and it never receives anything.

What a mailbox does is stated queue by queue: `queue_put` for sending, `fst_take` and `queue_take`
for taking.
-/

namespace Cosimulation.Exchange

open Wire

/-- A tag that keeps the messages of different conversations apart. -/
abbrev Tag := UInt16

/-- What a message is found under. -/
structure Key where
  source : Rank
  destination : Rank
  tag : Tag
  deriving Repr, DecidableEq

/-- The messages under way, oldest first. -/
structure Mailbox where
  messages : List (Key × Bytes) := []
  deriving Repr, DecidableEq

namespace Mailbox

/-- Adds a message behind all others. -/
def put (box : Mailbox) (key : Key) (bytes : Bytes) : Mailbox :=
  ⟨box.messages ++ [(key, bytes)]⟩

/-- The messages under a key, oldest first. -/
def queue (box : Mailbox) (key : Key) : List Bytes :=
  (box.messages.filter fun m => m.1 = key).map Prod.snd

/-- Takes the oldest message under a key. -/
def take (box : Mailbox) (key : Key) : Option Bytes × Mailbox :=
  match box.queue key with
  | [] => (none, box)
  | bytes :: _ => (some bytes, ⟨box.messages.eraseP fun m => m.1 = key⟩)

/-- The number of messages under way. -/
def pending (box : Mailbox) : Nat := box.messages.length

/-! ### The queues -/

@[simp]
theorem queue_put (box : Mailbox) (key k : Key) (bytes : Bytes) :
    (box.put key bytes).queue k = box.queue k ++ if key = k then [bytes] else [] := by
  unfold queue put
  rw [List.filter_append, List.map_append]
  congr 1
  by_cases h : key = k <;> simp [h]

theorem fst_take (box : Mailbox) (key : Key) : (box.take key).1 = (box.queue key).head? := by
  unfold take
  split
  next h => rw [h]; rfl
  next h => rw [h]; rfl

theorem queue_eraseP (key k : Key) (ms : List (Key × Bytes)) :
    (Mailbox.mk (ms.eraseP fun m => m.1 = key)).queue k =
      if k = key then ((Mailbox.mk ms).queue k).tail else (Mailbox.mk ms).queue k := by
  unfold queue
  induction ms with
  | nil => simp
  | cons m ms ih =>
    rw [List.eraseP_cons]
    by_cases hm : m.1 = key
    · by_cases hk : k = key
      · simp [hm, hk]
      · simp [hm, hk, Ne.symm hk]
    · by_cases hk : k = key
      · simp_all
      · by_cases hmk : m.1 = k <;> simp_all

/-- A message is taken from the front of its own queue, and from no other. -/
theorem queue_take (box : Mailbox) (key k : Key) :
    (box.take key).2.queue k = if k = key then (box.queue k).tail else box.queue k := by
  unfold take
  split
  next h =>
    split
    next hk => rw [hk, h]; rfl
    next => rfl
  next => exact queue_eraseP key k box.messages

end Mailbox

/-- A process that sends and receives. -/
inductive Endpoint where
  /-- A process on its own. -/
  | alone
  /-- One process of a group. -/
  | member (rank : Rank) (size : Nat)
  deriving Repr, DecidableEq

namespace Endpoint

variable {α : Type}

/-- A process of a group; its rank has to be one of the group's. -/
def new (rank : Rank) (size : Nat) : Except (Violation α) Endpoint :=
  if rank < size then .ok (.member rank size) else .error (.rankRange rank size)

/-- All processes of a group. -/
def group (size : Nat) : List Endpoint := (List.range size).map fun rank => .member rank size

/-- The rank of the process. -/
def rank : Endpoint → Rank
  | .alone => 0
  | .member rank _ => rank

/-- The size of its group. -/
def size : Endpoint → Nat
  | .alone => 1
  | .member _ size => size

/-- Sends a message. -/
def post (e : Endpoint) (peer : Rank) (tag : Tag) (bytes : Bytes) (box : Mailbox) : Mailbox :=
  match e with
  | .alone => box
  | .member rank _ => box.put ⟨rank, peer, tag⟩ bytes

/-- Takes the next message, if one is there. -/
def collect (e : Endpoint) (peer : Rank) (tag : Tag) (box : Mailbox) : Option Bytes × Mailbox :=
  match e with
  | .alone => (none, box)
  | .member rank _ => box.take ⟨peer, rank, tag⟩

variable {ρ : Type} [Record ρ]

/-- Sends records. -/
def send (e : Endpoint) (peer : Rank) (tag : Tag) (records : List ρ) (box : Mailbox) : Mailbox :=
  e.post peer tag (encodeAll records) box

/-- Sends records to every other process of the group. -/
def broadcast (e : Endpoint) (tag : Tag) (records : List ρ) (box : Mailbox) : Mailbox :=
  ((List.range e.size).filter (· != e.rank)).foldl
    (fun box peer => e.send peer tag records box) box

/-- The records of a message that has to hold `count` of them. -/
def exactly (ρ : Type) [Record ρ] (count : Nat) (bytes : Bytes) :
    Except TransferFault (List ρ) :=
  let expected := count * Record.size ρ
  if bytes.length = expected then .ok ((pieces (Record.size ρ) count bytes).map Record.decode)
  else .error (.length expected bytes.length)

/-- The records of a message that may hold any number of them. -/
def wholly (ρ : Type) [Record ρ] (bytes : Bytes) : Except TransferFault (List ρ) :=
  (decodeAll ρ bytes).mapError .format

/-- Receives a message and reads it. -/
def receiveWith {β : Type} (e : Endpoint) (peer : Rank) (tag : Tag)
    (read : Bytes → Except TransferFault β) (box : Mailbox) : Except (Fault α) β × Mailbox :=
  match e.collect peer tag box with
  | (none, box') => (.error (.transfer peer .noMessage), box')
  | (some bytes, box') => ((read bytes).mapError (.transfer peer), box')

/-- Receives exactly `count` records. -/
def receive (ρ : Type) [Record ρ] (e : Endpoint) (peer : Rank) (tag : Tag) (count : Nat)
    (box : Mailbox) : Except (Fault α) (List ρ) × Mailbox :=
  e.receiveWith peer tag (exactly ρ count) box

/-- Receives any number of records. -/
def receiveAll (ρ : Type) [Record ρ] (e : Endpoint) (peer : Rank) (tag : Tag) (box : Mailbox) :
    Except (Fault α) (List ρ) × Mailbox :=
  e.receiveWith peer tag (wholly ρ) box

end Endpoint

end Cosimulation.Exchange
