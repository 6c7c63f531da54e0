import Mathlib.Data.List.Induction
import Mathlib.Logic.Function.Basic
import Cosimulation.Proofs.Exchange.Layout
import Cosimulation.Proofs.Wire.Records

/-!
# Shared values add up at their receivers

A `Coupling` places two participants in one group of processes: the processes of the one send the
values of shared vertices, those of the other receive them. A run takes turns in any order; the
`Schedule` of a run only asks that every process takes its turn once a round and that a receiver's
turn comes after those of the senders it shares vertices with.

Each pair of a sender and a receiver has a queue of its own, and what the receiver has taken from it
together with what is still in it is always what the sender has put in, round by round
(`Progress.queue`). One turn keeps this (`Progress.send`, `Progress.receive`), so that every
receiver adds up the values of its own round, although nobody waits for a round to end: in
ascending order of the senders and starting from zero (`run_delivers`).
-/

namespace Cosimulation.Exchange

open Wire

/-- Two participants in one group of processes. The process with rank `a` among the senders has the
rank `senderOffset + a` in the group, and likewise for the receivers. -/
structure Coupling where
  senders : Distribution
  receivers : Distribution
  senderOffset : Nat
  receiverOffset : Nat
  size : Nat
  tag : Tag
  dimension : Nat
  dimension_pos : 0 < dimension
  senders_nodup : ∀ e ∈ senders.entries, e.2.Nodup
  receivers_nodup : ∀ e ∈ receivers.entries, e.2.Nodup
  senders_inside : ∀ e ∈ senders.entries, senderOffset + e.1 < size
  receivers_inside : ∀ e ∈ receivers.entries, receiverOffset + e.1 < size
  /-- Ranks and lengths are counted in 64 bits. -/
  size_le : size ≤ UInt64.size
  senders_countable : ∀ e ∈ senders.entries, e.2.length * dimension < UInt64.size
  receivers_countable : ∀ e ∈ receivers.entries, e.2.length * dimension < UInt64.size

/-- What comes next in a run. -/
inductive Turn where
  | send (a : Rank)
  | receive (b : Rank)
  deriving Repr, DecidableEq

namespace Coupling

/-- The plan of a sender. -/
def senderPlan (c : Coupling) (a : Rank) : Plan :=
  { Plan.ofDistributions a c.senders c.receivers with offset := c.receiverOffset, tag := c.tag }

/-- The plan of a receiver. -/
def receiverPlan (c : Coupling) (b : Rank) : Plan :=
  { Plan.ofDistributions b c.receivers c.senders with offset := c.senderOffset, tag := c.tag }

/-- The messages under way, how often each sender has sent, and what each receiver got, oldest
first. -/
structure State where
  box : Mailbox := {}
  sent : Rank → Nat := fun _ => 0
  answers : Rank → List (Except (Fault Double) (Vec Double)) := fun _ => []

/-- One turn. In its round `n`, sender `a` sends `values n a`. -/
def step (c : Coupling) (values : Nat → Rank → Vec Double) (s : State) :
    Turn → Except (Violation Double) State
  | .send a => do
    let e := Endpoint.member (c.senderOffset + a) c.size
    let box ← (c.senderPlan a).send e (values (s.sent a) a) c.dimension s.box
    return { s with box, sent := Function.update s.sent a (s.sent a + 1) }
  | .receive b => do
    let plan := c.receiverPlan b
    let e := Endpoint.member (c.receiverOffset + b) c.size
    let (answer, box) ← plan.receive e (plan.vertices * c.dimension) c.dimension s.box
    return { s with box, answers := Function.update s.answers b (s.answers b ++ [answer]) }

/-- One turn after the other. -/
def run (c : Coupling) (values : Nat → Rank → Vec Double) (turns : List Turn) (s : State) :
    Except (Violation Double) State :=
  turns.foldlM (c.step values) s

/-- What the vertex with a global index gets from several senders, in their order: `values a` from
each sender `a` that holds it, on top of a start. -/
def addShares (dimension : Nat) (values : Rank → Vec Double) (senders : List (Rank × List Nat))
    (start : Double) (g k : Nat) : Double :=
  (senders.filter fun e => e.2.contains g).foldl
    (fun total e => total + component dimension e.2 (values e.1) g k) start

/-- What a receiver with the given vertices gets in a round. -/
def sums (c : Coupling) (values : Rank → Vec Double) (globals : List Nat) : Vec Double :=
  layOut c.dimension (addShares c.dimension values c.senders.entries 0) globals

/-- A sender and a receiver hold a vertex in common. -/
def Shares (a b : Rank × List Nat) : Prop := ∃ g ∈ a.2, g ∈ b.2

instance (a b : Rank × List Nat) : Decidable (Shares a b) :=
  inferInstanceAs (Decidable (∃ g ∈ a.2, g ∈ b.2))

/-- How often a sender has its turn. -/
def sends (turns : List Turn) (a : Rank) : Nat := turns.count (.send a)

/-- How often a receiver has its turn. -/
def receives (turns : List Turn) (b : Rank) : Nat := turns.count (.receive b)

/-- Every process has one turn in each round, and receivers have theirs after the senders they
depend on. -/
structure Schedule (c : Coupling) (rounds : Nat) (turns : List Turn) : Prop where
  senders : ∀ a ∈ c.senders.entries, sends turns a.1 = rounds
  receivers : ∀ b ∈ c.receivers.entries, receives turns b.1 = rounds
  members : ∀ t ∈ turns, (∃ a ∈ c.senders.entries, t = .send a.1) ∨
    ∃ b ∈ c.receivers.entries, t = .receive b.1
  ready : ∀ before after b, turns = before ++ .receive b.1 :: after → b ∈ c.receivers.entries →
    ∀ a ∈ c.senders.entries, Shares a b →
      receives before b.1 < sends before a.1

/-! ## What travels between two processes -/

variable {c : Coupling} {a b : Rank × List Nat}

/-- The queue from a sender to a receiver. -/
def key (c : Coupling) (a b : Rank) : Key := ⟨c.senderOffset + a, c.receiverOffset + b, c.tag⟩

theorem key_inj {a a' b b' : Rank} : c.key a b = c.key a' b' ↔ a = a' ∧ b = b' := by
  simp [key]

/-- The message of a sender to a receiver. -/
def parcel (c : Coupling) (values : Vec Double) (mine theirs : List Nat) : Bytes :=
  encodeAll (layOut c.dimension (component c.dimension mine values) (sharedGlobals mine theirs))

theorem shares_iff : Shares a b ↔ sharedGlobals a.2 b.2 ≠ [] := by
  simp only [Shares, ← mem_sharedGlobals]
  constructor
  · rintro ⟨g, hg⟩ hnil
    simp [hnil] at hg
  · exact List.exists_mem_of_ne_nil _

/-- Who shares a vertex with a process has a route to it. -/
theorem route?_of_shares (h : a.2.Nodup) (hs : Shares a b) :
    route? a.2 b = some ⟨b.1, (sharedGlobals a.2 b.2).map a.2.idxOf⟩ :=
  (route?_eq h b.1).trans (if_neg (shares_iff.1 hs))

theorem route?_of_not_shares (h : a.2.Nodup) (hs : ¬ Shares a b) : route? a.2 b = none :=
  (route?_eq h b.1).trans (if_pos (not_not.1 fun hne => hs (shares_iff.2 hne)))

theorem shares_comm : Shares a b ↔ Shares b a := by
  simp only [Shares, and_comm]

/-- The routes of a sender, from the entries of the receivers. -/
theorem routes_senderPlan (ha : a ∈ c.senders.entries) :
    (c.senderPlan a.1).routes = c.receivers.entries.filterMap (route? a.2) := by
  rw [senderPlan, Plan.ofDistributions, OrderedMap.find?_of_mem ha]
  rfl

theorem routes_receiverPlan (hb : b ∈ c.receivers.entries) :
    (c.receiverPlan b.1).routes = c.senders.entries.filterMap (route? b.2) := by
  rw [receiverPlan, Plan.ofDistributions, OrderedMap.find?_of_mem hb]
  rfl

theorem peer_senderPlan (a : Rank) (hb : b ∈ c.receivers.entries) (positions : List Nat) :
    (c.senderPlan a).peer ⟨b.1, positions⟩ =
      (.ok (c.receiverOffset + b.1) : Except (Violation Double) Rank) :=
  if_pos (Nat.lt_of_lt_of_le (c.receivers_inside b hb) c.size_le)

theorem peer_receiverPlan (b : Rank) (ha : a ∈ c.senders.entries) (positions : List Nat) :
    (c.receiverPlan b).peer ⟨a.1, positions⟩ =
      (.ok (c.senderOffset + a.1) : Except (Violation Double) Rank) :=
  if_pos (Nat.lt_of_lt_of_le (c.senders_inside a ha) c.size_le)

/-! ## One sender's turn -/

/-- What a sender's turn does to the mailbox, as far as the given receivers are concerned. -/
structure Posted (c : Coupling) (values : Vec Double) (a : Rank × List Nat)
    (bs : List (Rank × List Nat)) (box box' : Mailbox) : Prop where
  posted : ∀ b ∈ bs, Shares a b → box'.queue (c.key a.1 b.1) =
    box.queue (c.key a.1 b.1) ++ [c.parcel values a.2 b.2]
  others : ∀ k, (∀ b ∈ bs, Shares a b → k ≠ c.key a.1 b.1) → box'.queue k = box.queue k

theorem posted_all (ha : a ∈ c.senders.entries) {values : Vec Double}
    (hvalues : values.length = a.2.length * c.dimension) {bs : List (Rank × List Nat)}
    (hbs : ∀ b ∈ bs, b ∈ c.receivers.entries) (hkeys : (bs.map Prod.fst).Nodup) (box : Mailbox) :
    ∃ box', (bs.filterMap (route? a.2)).foldlM (m := Except (Violation Double))
        (fun box route => do
          return Endpoint.send (.member (c.senderOffset + a.1) c.size)
            (← (c.senderPlan a.1).peer route) c.tag (Plan.gather route values c.dimension) box)
        box = .ok box' ∧ Posted c values a bs box box' := by
  induction bs generalizing box with
  | nil => exact ⟨box, rfl, by simp, fun _ _ => rfl⟩
  | cons b bs ih =>
    obtain ⟨hb, hkeys⟩ := List.nodup_cons.1 hkeys
    have hrest := fun b' hb' => hbs b' (List.mem_cons_of_mem b hb')
    have hmember := hbs b List.mem_cons_self
    by_cases hshares : Shares a b
    · -- The message goes behind the others of its queue, and the remaining ones go elsewhere.
      have hroute := route?_of_shares (c.senders_nodup a ha) hshares
      have hdiffer : ∀ b' ∈ bs, c.key a.1 b.1 ≠ c.key a.1 b'.1 := by
        intro b' hb' heq
        exact hb (List.mem_map.2 ⟨b', hb', (key_inj.1 heq).2.symm⟩)
      have hgather : Plan.gather ⟨b.1, (sharedGlobals a.2 b.2).map a.2.idxOf⟩ values c.dimension =
          layOut c.dimension (component c.dimension a.2 values) (sharedGlobals a.2 b.2) := by
        rw [← gather_layOut (fun g hg => (mem_sharedGlobals.1 hg).1) b.1,
          layOut_component (c.senders_nodup a ha) hvalues]
      obtain ⟨box', hbox, h⟩ := ih hrest hkeys (box.put (c.key a.1 b.1) (c.parcel values a.2 b.2))
      refine ⟨box', ?_, ?_, ?_⟩
      · rw [List.filterMap_cons_some hroute, List.foldlM_cons, peer_senderPlan a.1 hmember, hgather]
        exact hbox
      · intro b' hb' hs
        rcases List.mem_cons.1 hb' with rfl | hb'
        · rw [h.others _ fun b' hb' _ => hdiffer b' hb', Mailbox.queue_put, if_pos rfl]
        · rw [h.posted b' hb' hs, Mailbox.queue_put, if_neg (hdiffer b' hb'), List.append_nil]
      · intro k hk
        rw [h.others k fun b' hb' => hk b' (List.mem_cons_of_mem b hb'), Mailbox.queue_put,
          if_neg (hk b List.mem_cons_self hshares).symm, List.append_nil]
    · have hroute := route?_of_not_shares (c.senders_nodup a ha) hshares
      obtain ⟨box', hbox, h⟩ := ih hrest hkeys box
      refine ⟨box', ?_, ?_, ?_⟩
      · rw [List.filterMap_cons_none hroute, hbox]
      · intro b' hb' hs
        rcases List.mem_cons.1 hb' with rfl | hb'
        · exact absurd hs hshares
        · exact h.posted b' hb' hs
      · exact fun k hk => h.others k fun b' hb' => hk b' (List.mem_cons_of_mem b hb')

/-- A sender's turn puts one message into the queue to each receiver it shares vertices with. -/
theorem send_posted (ha : a ∈ c.senders.entries) {values : Vec Double}
    (hvalues : values.length = a.2.length * c.dimension) (box : Mailbox) :
    ∃ box', (c.senderPlan a.1).send (.member (c.senderOffset + a.1) c.size) values c.dimension box =
        (.ok box' : Except (Violation Double) Mailbox) ∧
      Posted c values a c.receivers.entries box box' := by
  obtain ⟨box', hbox, h⟩ := posted_all ha hvalues (fun _ hb => hb)
    (OrderedMap.nodup_keys c.receivers) box
  refine ⟨box', ?_, h⟩
  have hlength : (c.senderPlan a.1).checkLength values.length c.dimension =
      (.ok () : Except (Violation Double) Unit) := by
    have hvertices : (c.senderPlan a.1).vertices = a.2.length := by
      rw [senderPlan, Plan.ofDistributions, OrderedMap.find?_of_mem ha]
      rfl
    rw [Plan.checkLength, hvertices, scalarCount, if_pos (c.senders_countable a ha)]
    exact if_pos hvalues
  rw [Plan.send, hlength, routes_senderPlan ha]
  exact hbox

/-! ## One receiver's turn -/

/-- As many values as were sent are read back. -/
theorem exactly_encodeAll (values : Vec Double) :
    Endpoint.exactly Double values.length (encodeAll values) = .ok values := by
  rw [Endpoint.exactly, if_pos (length_encodeAll values), pieces_encodeAll, List.map_map]
  exact congrArg _ (List.map_id'' decode_encode_double values)

/-- What a receiver's turn does to the mailbox, as far as the given senders are concerned. -/
structure Taken (c : Coupling) (b : Rank × List Nat) (as : List (Rank × List Nat))
    (box box' : Mailbox) : Prop where
  taken : ∀ a ∈ as, Shares a b →
    box'.queue (c.key a.1 b.1) = (box.queue (c.key a.1 b.1)).tail
  others : ∀ k, (∀ a ∈ as, Shares a b → k ≠ c.key a.1 b.1) → box'.queue k = box.queue k

theorem addShares_cons {dimension : Nat} {values : Rank → Vec Double} (a : Rank × List Nat)
    (as : List (Rank × List Nat)) (start : Double) (g k : Nat) :
    addShares dimension values (a :: as) start g k = addShares dimension values as
      (if g ∈ a.2 then start + component dimension a.2 (values a.1) g k else start) g k := by
  by_cases hg : g ∈ a.2 <;> simp [addShares, hg]

/-- A receiver finds in a message what the sender has put in, although it lists the shared vertices
by its own account. -/
theorem receive_parcel (ha : a ∈ c.senders.entries) (hb : b ∈ c.receivers.entries)
    {values : Vec Double} {box : Mailbox}
    (hfirst : (box.queue (c.key a.1 b.1)).head? = some (c.parcel values a.2 b.2)) :
    Endpoint.receive (α := Double) Double (.member (c.receiverOffset + b.1) c.size)
        (c.senderOffset + a.1) c.tag
        (((sharedGlobals b.2 a.2).map b.2.idxOf).length * c.dimension) box =
      (.ok (layOut c.dimension (component c.dimension a.2 values) (sharedGlobals b.2 a.2)),
        (box.take (c.key a.1 b.1)).2) := by
  have htake : box.take (c.key a.1 b.1) =
      (some (c.parcel values a.2 b.2), (box.take (c.key a.1 b.1)).2) :=
    Prod.ext ((Mailbox.fst_take box _).trans hfirst) rfl
  have hcount : ((sharedGlobals b.2 a.2).map b.2.idxOf).length * c.dimension =
      (layOut c.dimension (component c.dimension a.2 values) (sharedGlobals b.2 a.2)).length := by
    rw [length_layOut, List.length_map]
  rw [parcel, sharedGlobals_comm (c.senders_nodup a ha) (c.receivers_nodup b hb)] at htake
  rw [Endpoint.receive, Endpoint.receiveWith, Endpoint.collect]
  rw [show (⟨c.senderOffset + a.1, c.receiverOffset + b.1, c.tag⟩ : Key) = c.key a.1 b.1 from rfl,
    htake, hcount]
  simp only [exactly_encodeAll]
  rfl

theorem collect_all (hb : b ∈ c.receivers.entries) {values : Rank → Vec Double}
    {as : List (Rank × List Nat)} (has : ∀ a ∈ as, a ∈ c.senders.entries)
    (hkeys : (as.map Prod.fst).Nodup) {box : Mailbox}
    (hfirst : ∀ a ∈ as, Shares a b →
      (box.queue (c.key a.1 b.1)).head? = some (c.parcel (values a.1) a.2 b.2))
    (f : Nat → Nat → Double) :
    ∃ box', (c.receiverPlan b.1).collect (α := Double) (.member (c.receiverOffset + b.1) c.size)
          c.dimension (as.filterMap (route? b.2)) (layOut c.dimension f b.2) box =
        .ok (.ok (layOut c.dimension
          (fun g k => addShares c.dimension values as (f g k) g k) b.2), box') ∧
      Taken c b as box box' := by
  induction as generalizing box f with
  | nil => exact ⟨box, rfl, by simp, fun _ _ => rfl⟩
  | cons a as ih =>
    obtain ⟨ha, hkeys⟩ := List.nodup_cons.1 hkeys
    have hrest := fun a' ha' => has a' (List.mem_cons_of_mem a ha')
    have hmember := has a List.mem_cons_self
    by_cases hshares : Shares a b
    · have hroute := route?_of_shares (c.receivers_nodup b hb) (shares_comm.1 hshares)
      have hreceive := receive_parcel hmember hb (hfirst a List.mem_cons_self hshares)
      have hdiffer : ∀ a' ∈ as, c.key a'.1 b.1 ≠ c.key a.1 b.1 := by
        intro a' ha' heq
        exact ha (List.mem_map.2 ⟨a', ha', (key_inj.1 heq).1⟩)
      have hfirst' : ∀ a' ∈ as, Shares a' b →
          ((box.take (c.key a.1 b.1)).2.queue (c.key a'.1 b.1)).head? =
            some (c.parcel (values a'.1) a'.2 b.2) := by
        intro a' ha' hs
        rw [Mailbox.queue_take, if_neg (hdiffer a' ha')]
        exact hfirst a' (List.mem_cons_of_mem a ha') hs
      obtain ⟨box', hbox, h⟩ := ih hrest hkeys hfirst' fun g k =>
        if g ∈ sharedGlobals b.2 a.2 then f g k + component c.dimension a.2 (values a.1) g k
        else f g k
      refine ⟨box', ?_, ?_, ?_⟩
      · rw [List.filterMap_cons_some hroute, Plan.collect, peer_receiverPlan b.1 hmember]
        dsimp only [bind, Except.bind]
        rw [show (c.receiverPlan b.1).tag = c.tag from rfl, hreceive]
        simp only [if_neg (Nat.ne_of_gt c.dimension_pos)]
        rw [deposit_layOut (c.receivers_nodup b hb) (fun g hg => (mem_sharedGlobals.1 hg).1)
          (nodup_sharedGlobals (c.senders_nodup a hmember)), hbox]
        congr 3
        refine layOut_congr fun g hg k => ?_
        simp only [addShares_cons, mem_sharedGlobals, hg, true_and]
      · intro a' ha' hs
        rcases List.mem_cons.1 ha' with rfl | ha'
        · rw [h.others _ fun a' ha' _ => (hdiffer a' ha').symm, Mailbox.queue_take, if_pos rfl]
        · rw [h.taken a' ha' hs, Mailbox.queue_take, if_neg (hdiffer a' ha')]
      · intro k hk
        rw [h.others k fun a' ha' => hk a' (List.mem_cons_of_mem a ha'), Mailbox.queue_take,
          if_neg (hk a List.mem_cons_self hshares)]
    · have hroute := route?_of_not_shares (c.receivers_nodup b hb) fun h =>
        hshares (shares_comm.2 h)
      obtain ⟨box', hbox, h⟩ := ih hrest hkeys
        (fun a' ha' => hfirst a' (List.mem_cons_of_mem a ha')) f
      refine ⟨box', ?_, ?_, ?_⟩
      · rw [List.filterMap_cons_none hroute, hbox, layOut_congr fun g hg k =>
          (addShares_cons a as (f g k) g k).trans (by rw [if_neg fun ha => hshares ⟨g, ha, hg⟩])]
      · intro a' ha' hs
        rcases List.mem_cons.1 ha' with rfl | ha'
        · exact absurd hs hshares
        · exact h.taken a' ha' hs
      · exact fun k hk => h.others k fun a' ha' => hk a' (List.mem_cons_of_mem a ha')

/-- A receiver's turn takes one message from the queue of each sender it shares vertices with, and
adds them up. -/
theorem receive_taken (hb : b ∈ c.receivers.entries) {values : Rank → Vec Double} {box : Mailbox}
    (hfirst : ∀ a ∈ c.senders.entries, Shares a b →
      (box.queue (c.key a.1 b.1)).head? = some (c.parcel (values a.1) a.2 b.2)) :
    ∃ box', (c.receiverPlan b.1).receive (α := Double) (.member (c.receiverOffset + b.1) c.size)
          ((c.receiverPlan b.1).vertices * c.dimension) c.dimension box =
        .ok (.ok (c.sums values b.2), box') ∧
      Taken c b c.senders.entries box box' := by
  obtain ⟨box', hbox, h⟩ := collect_all hb (fun _ ha => ha) (OrderedMap.nodup_keys c.senders) hfirst
    fun _ _ => 0
  refine ⟨box', ?_, h⟩
  have hvertices : (c.receiverPlan b.1).vertices = b.2.length := by
    rw [receiverPlan, Plan.ofDistributions, OrderedMap.find?_of_mem hb]
    rfl
  have hlength : (c.receiverPlan b.1).checkLength (b.2.length * c.dimension) c.dimension =
      (.ok () : Except (Violation Double) Unit) := by
    rw [Plan.checkLength, hvertices, scalarCount, if_pos (c.receivers_countable b hb)]
    exact if_pos rfl
  have hzero : List.replicate (b.2.length * c.dimension) 0 =
      layOut c.dimension (fun _ _ => 0) b.2 := by
    refine (List.eq_replicate_iff.2 ⟨length_layOut, fun x hx => ?_⟩).symm
    obtain ⟨g, _, hx⟩ := List.mem_flatMap.1 hx
    obtain ⟨k, _, rfl⟩ := List.mem_map.1 hx
    rfl
  rw [Plan.receive, hvertices, hlength, routes_receiverPlan hb, hzero]
  exact hbox

/-! ## Runs -/

variable {values : Nat → Rank → Vec Double} {turns : List Turn} {s : State}

/-- How far a run has come. -/
structure Progress (c : Coupling) (values : Nat → Rank → Vec Double) (turns : List Turn)
    (s : State) : Prop where
  sent : ∀ a, s.sent a = sends turns a
  answers : ∀ b ∈ c.receivers.entries, s.answers b.1 =
    (List.range (receives turns b.1)).map fun n => .ok (c.sums (values n) b.2)
  /-- What was taken from a queue and what is left in it is what was put in. -/
  queue : ∀ a ∈ c.senders.entries, ∀ b ∈ c.receivers.entries, Shares a b →
    (List.range (receives turns b.1)).map (fun n => c.parcel (values n a.1) a.2 b.2)
        ++ s.box.queue (c.key a.1 b.1) =
      (List.range (sends turns a.1)).map fun n => c.parcel (values n a.1) a.2 b.2
  others : ∀ k, (∀ a ∈ c.senders.entries, ∀ b ∈ c.receivers.entries, Shares a b →
    k ≠ c.key a.1 b.1) → s.box.queue k = []

section
variable (turns) (r a b : Rank)

@[simp]
theorem sends_concat_send :
    sends (turns ++ [.send r]) a = sends turns a + if r = a then 1 else 0 := by
  by_cases h : r = a <;> simp [sends, List.count_append, h]

@[simp]
theorem sends_concat_receive : sends (turns ++ [.receive r]) a = sends turns a := by
  simp [sends, List.count_append]

@[simp]
theorem receives_concat_send : receives (turns ++ [.send r]) b = receives turns b := by
  simp [receives, List.count_append]

@[simp]
theorem receives_concat_receive :
    receives (turns ++ [.receive r]) b = receives turns b + if r = b then 1 else 0 := by
  by_cases h : r = b <;> simp [receives, List.count_append, h]

end

theorem progress_nil : Progress c values [] {} where
  sent _ := rfl
  answers _ _ := rfl
  queue _ _ _ _ _ := rfl
  others _ _ := rfl

/-- Entries of one key are one entry. -/
theorem entry_eq {β : Type} {m : OrderedMap β} {e e' : Nat × β} (he : e ∈ m.entries)
    (he' : e' ∈ m.entries) (h : e.1 = e'.1) : e = e' := by
  have hfind := OrderedMap.find?_of_mem he
  rw [h, OrderedMap.find?_of_mem he'] at hfind
  exact Prod.ext h (Option.some.inj hfind).symm

theorem Progress.send (h : Progress c values turns s) (ha : a ∈ c.senders.entries)
    (hvalues : ∀ n, (values n a.1).length = a.2.length * c.dimension) :
    ∃ s', c.step values s (.send a.1) = .ok s' ∧ Progress c values (turns ++ [.send a.1]) s' := by
  obtain ⟨box', hbox, hposted⟩ := send_posted ha (hvalues (s.sent a.1)) s.box
  refine ⟨_, by rw [step, hbox]; rfl, ?_, ?_, ?_, ?_⟩
  · intro r
    by_cases hr : r = a.1
    · simp [hr, h.sent]
    · simp [hr, h.sent, Ne.symm hr]
  · intro b hb
    rw [receives_concat_send, ← h.answers b hb]
  · intro a' ha' b hb hs
    have hold := h.queue a' ha' b hb hs
    rw [receives_concat_send, sends_concat_send]
    by_cases haa : a.1 = a'.1
    · -- The new message is the one of the sender's next round.
      obtain rfl := entry_eq ha ha' haa
      rw [hposted.posted b hb hs, h.sent, ← List.append_assoc, hold, if_pos rfl, List.range_succ,
        List.map_append, List.map_singleton]
    · rw [hposted.others _ fun b' _ _ heq => haa (key_inj.1 heq).1.symm, if_neg haa]
      exact hold
  · intro k hk
    rw [hposted.others k fun b hb => hk a ha b hb, h.others k hk]

/-- The first message that was put into a queue and not yet taken from it. -/
theorem next_of_queue {β : Type} {m : Nat → β} {r n : Nat} {queue : List β}
    (h : (List.range r).map m ++ queue = (List.range n).map m) (hr : r < n) :
    ∃ rest, queue = m r :: rest ∧ (List.range (r + 1)).map m ++ rest = (List.range n).map m := by
  have hat : ((List.range r).map m ++ queue)[r]? = some (m r) := by rw [h]; simp [hr]
  rw [List.getElem?_append_right (by simp)] at hat
  cases queue with
  | nil => simp at hat
  | cons x rest =>
    have hx : x = m r := by simpa using hat
    refine ⟨rest, by rw [hx], ?_⟩
    rw [← h, hx, List.range_succ, List.map_append, List.append_assoc, List.map_singleton]
    rfl

theorem Progress.receive (h : Progress c values turns s) (hb : b ∈ c.receivers.entries)
    (hready : ∀ a ∈ c.senders.entries, Shares a b →
      receives turns b.1 < sends turns a.1) :
    ∃ s', c.step values s (.receive b.1) = .ok s' ∧
      Progress c values (turns ++ [.receive b.1]) s' := by
  have hnext := fun a ha hs => next_of_queue (h.queue a ha b hb hs) (hready a ha hs)
  have hfirst : ∀ a ∈ c.senders.entries, Shares a b → (s.box.queue (c.key a.1 b.1)).head? =
      some (c.parcel (values (receives turns b.1) a.1) a.2 b.2) := by
    intro a ha hs
    obtain ⟨rest, hqueue, _⟩ := hnext a ha hs
    rw [hqueue, List.head?_cons]
  obtain ⟨box', hbox, htaken⟩ := receive_taken hb hfirst
  refine ⟨_, by rw [step, hbox]; rfl, ?_, ?_, ?_, ?_⟩
  · intro r
    rw [sends_concat_receive, ← h.sent]
  · intro b' hb'
    rw [receives_concat_receive]
    by_cases hbb : b.1 = b'.1
    · -- The answer is the one of the receiver's next round.
      obtain rfl := entry_eq hb hb' hbb
      rw [if_pos rfl, List.range_succ, List.map_append, ← h.answers b hb]
      simp
    · rw [if_neg hbb, Nat.add_zero, ← h.answers b' hb']
      simp [Ne.symm hbb]
  · intro a ha b' hb' hs
    rw [receives_concat_receive, sends_concat_receive]
    by_cases hbb : b.1 = b'.1
    · obtain rfl := entry_eq hb hb' hbb
      obtain ⟨rest, hqueue, hrest⟩ := hnext a ha hs
      rw [htaken.taken a ha hs, hqueue, if_pos rfl]
      exact hrest
    · rw [htaken.others _ fun a' _ _ heq => hbb (key_inj.1 heq).2.symm, if_neg hbb]
      exact h.queue a ha b' hb' hs
  · intro k hk
    rw [htaken.others k fun a ha hs => hk a ha b hb hs, h.others k hk]

/-- A run comes as far as its turns say, as long as no receiver is early. -/
theorem run_progress (hvalues : ∀ n, ∀ a ∈ c.senders.entries,
      (values n a.1).length = a.2.length * c.dimension)
    (hmembers : ∀ t ∈ turns, (∃ a ∈ c.senders.entries, t = .send a.1) ∨
      ∃ b ∈ c.receivers.entries, t = .receive b.1)
    (hready : ∀ before after b, turns = before ++ .receive b.1 :: after →
      b ∈ c.receivers.entries → ∀ a ∈ c.senders.entries, Shares a b →
        receives before b.1 < sends before a.1) :
    ∃ s, c.run values turns {} = .ok s ∧ Progress c values turns s := by
  induction turns using List.reverseRecOn with
  | nil => exact ⟨{}, rfl, progress_nil⟩
  | append_singleton turns t ih =>
    obtain ⟨s, hs, h⟩ := ih (fun t' ht' => hmembers t' (List.mem_append_left _ ht'))
      fun before after b hsplit => hready before (after ++ [t]) b (by simp [hsplit])
    have hstep {s' : State} (ht : c.step values s t = .ok s') :
        c.run values (turns ++ [t]) {} = .ok s' := by
      rw [run, List.foldlM_append, ← run, hs]
      show List.foldlM (c.step values) s [t] = .ok s'
      rw [List.foldlM_cons, ht]
      rfl
    rcases hmembers t (by simp) with ⟨a, ha, rfl⟩ | ⟨b, hb, rfl⟩
    · obtain ⟨s', hs', h'⟩ := h.send ha fun n => hvalues n a ha
      exact ⟨s', hstep hs', h'⟩
    · obtain ⟨s', hs', h'⟩ := h.receive hb fun a ha hs => hready turns [] b rfl hb a ha hs
      exact ⟨s', hstep hs', h'⟩

/-- In a run of any number of rounds, every receive yields the sums of the values of its round, and
in the end no message is left. -/
theorem run_delivers {c : Coupling} (values : Nat → Rank → Vec Double)
    (hvalues : ∀ n, ∀ a ∈ c.senders.entries, (values n a.1).length = a.2.length * c.dimension)
    {rounds : Nat} {turns : List Turn} (h : c.Schedule rounds turns) :
    ∃ s, c.run values turns {} = .ok s ∧ s.box.pending = 0 ∧
      ∀ b ∈ c.receivers.entries,
        s.answers b.1 = (List.range rounds).map fun n => .ok (c.sums (values n) b.2) := by
  obtain ⟨s, hs, hp⟩ := run_progress hvalues h.members h.ready
  refine ⟨s, hs, ?_, fun b hb => by rw [hp.answers b hb, h.receivers b hb]⟩
  have hempty (k : Key) : s.box.queue k = [] := by
    by_cases hk : ∃ a ∈ c.senders.entries, ∃ b ∈ c.receivers.entries, Shares a b ∧ k = c.key a.1 b.1
    · obtain ⟨a, ha, b, hb, hshares, rfl⟩ := hk
      have hqueue := hp.queue a ha b hb hshares
      rw [h.senders a ha, h.receivers b hb] at hqueue
      exact List.append_right_eq_self.1 hqueue
    · exact hp.others k fun a ha b hb hs heq => hk ⟨a, ha, b, hb, hs, heq⟩
  refine List.length_eq_zero_iff.2 (List.eq_nil_iff_forall_not_mem.2 fun e he => ?_)
  have hmem : e.2 ∈ s.box.queue e.1 :=
    List.mem_map_of_mem (List.mem_filter.2 ⟨he, by simp⟩)
  rw [hempty] at hmem
  cases hmem

/-- Three vertices shared by two senders and two receivers, some of them several times. -/
def crossing : Coupling where
  senders := ⟨[(0, [7, 3]), (2, [3, 9])], by decide⟩
  receivers := ⟨[(0, [3, 5, 7]), (1, [9])], by decide⟩
  senderOffset := 0
  receiverOffset := 3
  size := 5
  tag := 0x50
  dimension := 1
  dimension_pos := by decide
  senders_nodup := by decide
  receivers_nodup := by decide
  senders_inside := by decide
  receivers_inside := by decide
  size_le := by decide
  senders_countable := by decide
  receivers_countable := by decide

/-- Two rounds in which one sender and one receiver run ahead of the others. -/
def crossingTurns : List Turn :=
  [.send 0, .send 0, .send 2, .receive 1, .send 2, .receive 1, .receive 0, .receive 0]

theorem crossing_schedule : crossing.Schedule 2 crossingTurns where
  senders := by decide
  receivers := by decide
  members := by decide
  ready before after b h := by
    have hready : ∀ i < 8, ∀ b ∈ crossing.receivers.entries,
        crossingTurns[i]? = some (.receive b.1) → ∀ a ∈ crossing.senders.entries, Shares a b →
          receives (crossingTurns.take i) b.1 < sends (crossingTurns.take i) a.1 := by
      decide
    have hlength : before.length < 8 := by
      have := congrArg List.length h
      simp [crossingTurns] at this
      omega
    have hat := hready before.length hlength b
    rw [h, List.take_left, List.getElem?_append_right (Nat.le_refl _), Nat.sub_self] at hat
    exact fun hb a ha => hat hb rfl a ha

theorem crossing_delivers :
    ∃ s, crossing.run (fun n a => [⟨.ofNat n⟩, ⟨.ofNat a⟩]) crossingTurns {} = .ok s ∧
      s.box.pending = 0 ∧
      s.answers 0 = [.ok [0 + ⟨0⟩ + ⟨0⟩, 0, 0 + ⟨0⟩], .ok [0 + ⟨0⟩ + ⟨1⟩, 0, 0 + ⟨1⟩]] ∧
      s.answers 1 = [.ok [0 + ⟨2⟩], .ok [0 + ⟨2⟩]] := by
  have hvertices : ∀ a ∈ crossing.senders.entries, 2 = a.2.length * crossing.dimension := by decide
  have hvalues (n : Nat) : ∀ a ∈ crossing.senders.entries,
      [(⟨.ofNat n⟩ : Double), ⟨.ofNat a.1⟩].length = a.2.length * crossing.dimension := hvertices
  obtain ⟨s, hs, hpending, h⟩ := run_delivers (fun n a => [⟨.ofNat n⟩, ⟨.ofNat a⟩]) hvalues
    crossing_schedule
  exact ⟨s, hs, hpending, h (0, [3, 5, 7]) (by decide), h (1, [9]) (by decide)⟩

end Coupling

end Cosimulation.Exchange
