import Cosimulation.Exchange.Mailbox
import Mathlib.Data.List.Forall2
import Mathlib.Data.List.Induction

/-!
# Delivery

The processes of a group share one mailbox. Each sends, broadcasts and receives when it likes, so
what happens to the mailbox is some interleaving of their acts; a `World` is the mailbox together
with the receipts for the receives that got a message. A receive that finds no message goes on
waiting and leaves no receipt until one is there.

> `run_delivered`: after any acts, in any order, the receives under a key have been answered with
> the first messages sent under it, one each and in order, and the remaining ones are still there,
> the first of them for the next receive.

Messages carry no numbers, so this rests on the key alone. The sender writes it as its own rank and
its peer's, the receiver as its peer's rank and its own; an act changes the queue of the key that it
means and no other. Whether the message of a receive can be read plays no part: it is gone from the
mailbox either way, and its receipt says what reading it gave.

An act is indivisible here. For a broadcast that is no restriction: it is the sends it consists of
(`step_broadcast`), and these may be interleaved with whatever else happens.
-/

namespace Cosimulation.Exchange

open Wire

namespace Mailbox

theorem queue_append (xs ys : List (Key × Bytes)) (k : Key) :
    (Mailbox.mk (xs ++ ys)).queue k = (Mailbox.mk xs).queue k ++ (Mailbox.mk ys).queue k := by
  rw [queue, List.filter_append, List.map_append]
  rfl

/-- A message that was taken is under way no longer. -/
theorem pending_take {box : Mailbox} {key : Key} {bytes : Bytes}
    (h : (box.take key).1 = some bytes) : (box.take key).2.pending + 1 = box.pending := by
  rw [fst_take] at h
  obtain ⟨rest, hq⟩ := List.head?_eq_some_iff.1 h
  have hmem : bytes ∈ box.queue key := hq ▸ List.mem_cons_self
  obtain ⟨m, hm, -⟩ := List.mem_map.1 hmem
  obtain ⟨hm, hkey⟩ := List.mem_filter.1 hm
  rw [take, hq, pending, pending, List.length_eraseP_of_mem hm hkey]
  exact Nat.sub_add_cancel (List.length_pos_of_mem hm)

end Mailbox

/-! ## Processes at work -/

/-- What a process does: it sends to one or to all others, or it receives a message and reads it.
`Endpoint.receive` and `Endpoint.receiveAll` are receives that read the message as records; the
reading that accepts everything gives its bytes. -/
inductive Act : Type 1 where
  | send (ρ : Type) [Record ρ] (peer : Rank) (tag : Tag) (records : List ρ)
  | broadcast (ρ : Type) [Record ρ] (tag : Tag) (records : List ρ)
  | receive {β : Type} (peer : Rank) (tag : Tag) (read : Bytes → Except TransferFault β)

/-- A receive that got a message: where from, how it was to be read, and what that gave. -/
structure Receipt (α : Type) : Type 1 where
  key : Key
  {β : Type}
  read : Bytes → Except TransferFault β
  answer : Except (Fault α) β

/-- The mailbox of a group, and the receipts of its processes, oldest first. -/
structure World (α : Type) : Type 1 where
  box : Mailbox
  receipts : List (Receipt α)

variable {α : Type} {size : Nat}

/-- Before the first act. -/
def World.empty : World α := ⟨{}, []⟩

/-- The act of one process of the group. -/
def World.step (w : World α) (rank : Fin size) : Act → World α
  | @Act.send _ _ peer tag records =>
    { w with box := (Endpoint.member rank size).send peer tag records w.box }
  | @Act.broadcast _ _ tag records =>
    { w with box := (Endpoint.member rank size).broadcast tag records w.box }
  | .receive peer tag read =>
    match ((Endpoint.member rank size).collect peer tag w.box).1 with
    | none => w
    | some _ =>
      let (answer, box) := (Endpoint.member rank size).receiveWith peer tag read w.box
      ⟨box, w.receipts ++ [⟨⟨peer, rank, tag⟩, read, answer⟩]⟩

/-- The acts of the processes, in the order in which they happen. -/
def World.run (w : World α) (acts : List (Fin size × Act)) : World α :=
  acts.foldl (fun w a => w.step a.1 a.2) w

/-- The messages that an act of a process sends. -/
def Act.messages (rank : Fin size) : Act → List (Key × Bytes)
  | @Act.send _ _ peer tag records => [(⟨rank, peer, tag⟩, encodeAll records)]
  | @Act.broadcast _ _ tag records => ((List.range size).filter (· != rank.val)).map fun peer =>
      (⟨rank, peer, tag⟩, encodeAll records)
  | .receive .. => []

/-- The messages that the acts send, oldest first. -/
def sent (acts : List (Fin size × Act)) : List (Key × Bytes) :=
  acts.flatMap fun a => a.2.messages a.1

/-- Those sent under one key. -/
def sentUnder (acts : List (Fin size × Act)) (k : Key) : List Bytes :=
  (Mailbox.mk (sent acts)).queue k

/-- The receipts under one key. -/
def World.receiptsUnder (w : World α) (k : Key) : List (Receipt α) :=
  w.receipts.filter (·.key = k)

/-- The mailbox without the message that a receipt is for, and the receipt. -/
def World.taken (w : World α) (r : Receipt α) : World α :=
  ⟨(w.box.take r.key).2, w.receipts ++ [r]⟩

theorem World.receiptsUnder_taken (w : World α) (r : Receipt α) (k : Key) :
    (w.taken r).receiptsUnder k = w.receiptsUnder k ++ if r.key = k then [r] else [] := by
  rw [receiptsUnder, taken, List.filter_append, List.filter_singleton]
  by_cases hk : r.key = k
  · rw [decide_eq_true hk, if_pos hk]
    rfl
  · rw [decide_eq_false hk, if_neg hk]
    rfl

/-! ## One act -/

/-- Sending to several peers appends a message for each. -/
theorem foldl_send {ρ : Type} [Record ρ] (rank : Rank) (tag : Tag) (records : List ρ)
    (peers : List Rank) : ∀ box : Mailbox,
    peers.foldl (fun box peer => (Endpoint.member rank size).send peer tag records box) box =
      ⟨box.messages ++ peers.map fun peer => (⟨rank, peer, tag⟩, encodeAll records)⟩ := by
  induction peers with
  | nil => intro box; rw [List.map_nil, List.append_nil]; rfl
  | cons peer peers ih =>
    intro box
    rw [List.foldl_cons, ih, List.map_cons, List.append_cons]
    rfl

/-- A broadcast is the sends it consists of. -/
theorem World.step_broadcast {ρ : Type} [Record ρ] (w : World α) (rank : Fin size) (tag : Tag)
    (records : List ρ) : w.step rank (.broadcast ρ tag records) =
      w.run (((List.range size).filter (· != rank.val)).map fun peer =>
        (rank, .send ρ peer tag records)) := by
  have hall : ∀ (peers : List Rank) (w : World α),
      w.run (peers.map fun peer => (rank, .send ρ peer tag records)) =
        ⟨peers.foldl (fun box peer => (Endpoint.member rank size).send peer tag records box) w.box,
          w.receipts⟩ := by
    intro peers
    induction peers with
    | nil => intro w; rfl
    | cons peer peers ih => intro w; exact ih _
  exact (hall _ w).symm

/-- Every message sent is accounted for: under every key, the receives were answered with the first
messages sent, each with one and in order, and the others are still there. -/
structure Accounted (acts : List (Fin size × Act)) (w : World α) : Prop where
  received : ∀ k, List.Forall₂
    (fun (r : Receipt α) bytes => r.answer = (r.read bytes).mapError (.transfer k.source))
    (w.receiptsUnder k) ((sentUnder acts k).take (w.receiptsUnder k).length)
  waiting : ∀ k, w.box.queue k = (sentUnder acts k).drop (w.receiptsUnder k).length
  pending : w.box.pending + w.receipts.length = (sent acts).length

variable {acts : List (Fin size × Act)} {w : World α}

theorem sent_concat (acts : List (Fin size × Act)) (rank : Fin size) (act : Act) :
    sent (acts ++ [(rank, act)]) = sent acts ++ act.messages rank := by
  rw [sent, List.flatMap_append, List.flatMap_singleton]
  rfl

theorem sentUnder_concat (acts : List (Fin size × Act)) (rank : Fin size) (act : Act) (k : Key) :
    sentUnder (acts ++ [(rank, act)]) k =
      sentUnder acts k ++ (Mailbox.mk (act.messages rank)).queue k := by
  rw [sentUnder, sent_concat, Mailbox.queue_append]
  rfl

/-- There are no more receipts than messages. -/
theorem Accounted.length_le (h : Accounted acts w) (k : Key) :
    (w.receiptsUnder k).length ≤ (sentUnder acts k).length := by
  have hlen := (h.received k).length_eq
  rw [List.length_take] at hlen
  omega

/-- A message at the end of the mailbox does not matter to what was received. -/
theorem Accounted.post (h : Accounted acts w) (rank : Fin size) (act : Act) :
    Accounted (acts ++ [(rank, act)]) ⟨⟨w.box.messages ++ act.messages rank⟩, w.receipts⟩ := by
  refine ⟨fun k => ?_, fun k => ?_, ?_⟩
  · show List.Forall₂ _ (w.receiptsUnder k) (List.take (w.receiptsUnder k).length _)
    rw [sentUnder_concat, List.take_append_of_le_length (h.length_le k)]
    exact h.received k
  · show _ = List.drop (w.receiptsUnder k).length _
    rw [sentUnder_concat, List.drop_append_of_le_length (h.length_le k), Mailbox.queue_append]
    exact congrArg (· ++ _) (h.waiting k)
  · rw [sent_concat, List.length_append, ← h.pending, Mailbox.pending, Mailbox.pending,
      List.length_append]
    exact Nat.add_right_comm _ _ _

/-- The messages under a key that were not received yet. -/
theorem Accounted.head?_queue (h : Accounted acts w) (k : Key) :
    (w.box.queue k).head? = (sentUnder acts k)[(w.receiptsUnder k).length]? := by
  rw [h.waiting k, List.head?_drop]

/-- A receive that gets a message takes it from the front of its own queue, and the receipt is for
that message. -/
theorem Accounted.receive (h : Accounted acts w) (rank : Fin size) {peer : Rank} {tag : Tag}
    {β : Type} (read : Bytes → Except TransferFault β) {bytes : Bytes}
    (ht : (w.box.take ⟨peer, rank, tag⟩).1 = some bytes) :
    Accounted (acts ++ [(rank, .receive peer tag read)])
      (w.taken ⟨⟨peer, rank, tag⟩, read, (read bytes).mapError (.transfer peer)⟩) := by
  have hsent : ∀ k, sentUnder (acts ++ [(rank, .receive peer tag read)]) k = sentUnder acts k :=
    fun k => (sentUnder_concat _ _ _ _).trans (List.append_nil _)
  have hfirst : (sentUnder acts ⟨peer, rank, tag⟩)[(w.receiptsUnder ⟨peer, rank, tag⟩).length]? =
      some bytes := by
    rw [← h.head?_queue, ← Mailbox.fst_take, ht]
  refine ⟨fun k => ?_, fun k => ?_, ?_⟩
  · rw [hsent, World.receiptsUnder_taken]
    by_cases hk : k = ⟨peer, rank, tag⟩
    · rw [hk, if_pos rfl, List.length_append, List.length_singleton, List.take_add_one, hfirst]
      exact List.rel_append (h.received _) (.cons rfl .nil)
    · rw [if_neg (Ne.symm hk), List.append_nil]
      exact h.received k
  · rw [hsent, World.receiptsUnder_taken, World.taken, Mailbox.queue_take, h.waiting]
    by_cases hk : k = ⟨peer, rank, tag⟩
    · rw [hk, if_pos rfl, if_pos rfl, List.length_append, List.length_singleton, List.tail_drop]
    · rw [if_neg hk, if_neg (Ne.symm hk), List.append_nil]
  · rw [sent_concat, Act.messages, List.append_nil, ← h.pending, ← Mailbox.pending_take ht]
    show _ + (w.receipts ++ [_]).length = _
    rw [List.length_append, List.length_singleton, Nat.add_right_comm, Nat.add_assoc]
    rfl

/-- A receive leaves a receipt if there is a message under its key, and nothing otherwise. -/
theorem World.step_receive (w : World α) (rank : Fin size) (peer : Rank) (tag : Tag) {β : Type}
    (read : Bytes → Except TransferFault β) : w.step rank (.receive peer tag read) =
      match (w.box.take ⟨peer, rank, tag⟩).1 with
      | none => w
      | some bytes =>
        w.taken ⟨⟨peer, rank, tag⟩, read, (read bytes).mapError (.transfer peer)⟩ := by
  rw [step, Endpoint.receiveWith, Endpoint.collect]
  dsimp only [taken]
  cases w.box.take ⟨peer, rank, tag⟩ with
  | mk found box' =>
    cases found with
    | none => rfl
    | some bytes => rfl

/-- Whatever a process does, every message stays accounted for. -/
theorem Accounted.step (h : Accounted acts w) (rank : Fin size) (act : Act) :
    Accounted (acts ++ [(rank, act)]) (w.step rank act) := by
  cases act with
  | send peer tag records => exact h.post rank _
  | broadcast tag records =>
    show Accounted _ ⟨Endpoint.broadcast _ _ _ _, _⟩
    rw [Endpoint.broadcast, foldl_send]
    exact h.post rank _
  | receive peer tag read =>
    rw [World.step_receive]
    split
    next =>
      -- the receive is still waiting
      have hpost := h.post rank (.receive peer tag read)
      rwa [Act.messages, List.append_nil] at hpost
    next bytes ht => exact h.receive rank read ht

/-! ## All acts -/

/-- Every message is accounted for, and the next receive under a key is answered with the first
message that is left under it. -/
structure Delivered (acts : List (Fin size × Act)) (w : World α) : Prop extends
    Accounted acts w where
  next : ∀ (rank : Fin size) (peer : Rank) (tag : Tag) (β : Type)
    (read : Bytes → Except TransferFault β),
    ((Endpoint.member rank size).receiveWith peer tag read w.box).1 =
      match (sentUnder acts ⟨peer, rank, tag⟩)[(w.receiptsUnder ⟨peer, rank, tag⟩).length]? with
      | some bytes => (read bytes).mapError (.transfer peer)
      | none => (.error (.transfer peer .noMessage) : Except (Fault α) β)

theorem Accounted.delivered (h : Accounted acts w) : Delivered acts w := by
  refine ⟨h, fun rank peer tag β read => ?_⟩
  rw [← h.head?_queue, ← Mailbox.fst_take, Endpoint.receiveWith, Endpoint.collect]
  split
  next ht => rw [ht]
  next ht => rw [ht]

theorem run_accounted (acts : List (Fin size × Act)) :
    Accounted acts ((World.empty : World α).run acts) := by
  induction acts using List.reverseRecOn with
  | nil => exact ⟨fun _ => .nil, fun _ => rfl, rfl⟩
  | append_singleton acts act ih =>
    rw [World.run, List.foldl_append]
    exact ih.step act.1 act.2

/-- Whatever the processes of a group do, in whatever order: under every key, the messages are
received in the order of sending, none of them is lost, doubled or received under another key, and
the next receive gets the next message. -/
theorem run_delivered (acts : List (Fin size × Act)) :
    Delivered acts ((World.empty : World α).run acts) :=
  (run_accounted acts).delivered

end Cosimulation.Exchange
