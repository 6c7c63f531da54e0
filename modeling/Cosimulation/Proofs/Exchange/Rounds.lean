import Mathlib.Data.List.Induction
import Cosimulation.Exchange.SharedVertices

/-!
# Rounds of an exchange in which calls fail

A process asks for the sums of one round after the other, while messages arrive whenever they were
sent. Messages carry no number of a round: a call takes the oldest one from each remote process that
it gets to. It goes through them in ascending order and stops at the first whose message has another
length than it expects. That message is gone then, and those of the processes after it stay.

So what a call reads from a remote process is counted by the calls before it that got that far
(`Plan.drawn`), and not by the calls altogether. After a call that failed in between, the processes
up to the one that failed are read in step, and those after it one message behind, for as long as
nobody else takes what was left. This is `run_rounds`; `Rounds.inStep` says when a call reads the
messages of its own round.

One call is taken apart route by route (`collect_draws`). A run follows by induction, with every
queue being what arrived in it less what was drawn (`Drawn`).
-/

namespace Cosimulation.Exchange

open Wire

/-- What happens around a process: a message is put into the mailbox, or the process asks for the
sums of its next round. -/
inductive Event where
  | arrival (key : Key) (bytes : Bytes)
  | call (dimension : Nat)
  deriving Repr, DecidableEq

/-- The messages that arrive under a key, oldest first. -/
def arrivals (events : List Event) (k : Key) : List Bytes :=
  events.flatMap fun
    | .arrival key bytes => if key = k then [bytes] else []
    | .call _ => []

/-- What a call asked for and returned with. -/
structure Returned (α : Type) where
  dimension : Nat
  answer : Except (Fault α) (Vec Double)

/-- The messages under way, and the calls that returned, oldest first. -/
structure Course (α : Type) where
  box : Mailbox
  returned : List (Returned α) := []

namespace Plan

variable {α : Type} {plan : Plan} {me size dimension : Nat} {route : Route} {routes : List Route}
  {v : Vec Double} {box box' : Mailbox} {answer : Except (Fault α) (Vec Double)}

/-- The plan for remote processes that are reached at other ranks, and under a tag of its own. -/
def under (plan : Plan) (offset : Nat) (tag : Tag) : Plan := { plan with offset, tag }

/-- The queue from the remote process of a route. -/
def key (plan : Plan) (me : Rank) (route : Route) : Key :=
  ⟨plan.offset + route.remote, me, plan.tag⟩

/-- What a call comes to: its answer and the mailbox after it. A call that waits for a message that
is not there does not return, nor does one that ends in a violation. -/
def call (plan : Plan) (e : Endpoint) (dimension : Nat) (box : Mailbox) :
    Option (Except (Fault α) (Vec Double) × Mailbox) :=
  match plan.receive e (plan.vertices * dimension) dimension box with
  | .ok (.error (.transfer _ .noMessage), _) => none
  | .ok result => some result
  | .error _ => none

/-- One event. -/
def step (plan : Plan) (e : Endpoint) (s : Course α) : Event → Option (Course α)
  | .arrival key bytes => some { s with box := s.box.put key bytes }
  | .call dimension => do
    let (answer, box) ← plan.call e dimension s.box
    return { box, returned := s.returned ++ [⟨dimension, answer⟩] }

/-- One event after the other, as long as the calls return. -/
def run (plan : Plan) (e : Endpoint) (events : List Event) (s : Course α) : Option (Course α) :=
  events.foldlM (plan.step e) s

/-! ## What a call makes of its messages -/

/-- The values in the message for a route, if there is one. -/
def read (plan : Plan) (dimension : Nat) (route : Route) (message : Option Bytes) :
    Except (Fault α) (List Double) :=
  match message with
  | none => .error (.transfer (plan.offset + route.remote) .noMessage)
  | some bytes => (Endpoint.exactly Double (route.positions.length * dimension) bytes).mapError
      (.transfer (plan.offset + route.remote))

/-- The sums of the values in the messages for several routes, up to the first that cannot be
read. -/
def totalFrom (plan : Plan) (dimension : Nat) (message : Route → Option Bytes) :
    List Route → Vec Double → Except (Fault α) (Vec Double)
  | [], v => .ok v
  | route :: routes, v => do
    let values ← plan.read dimension route (message route)
    plan.totalFrom dimension message routes (deposit dimension route.positions values v)

/-- The sums of the values in the messages for all routes. -/
def total (plan : Plan) (dimension : Nat) (message : Route → Option Bytes) :
    Except (Fault α) (Vec Double) :=
  plan.totalFrom dimension message plan.routes (List.replicate (plan.vertices * dimension) 0)

/-- A call got as far as a route: it got through, or failed there or later. -/
def reaches (plan : Plan) (route : Route) : Except (Fault α) (Vec Double) → Bool
  | .ok _ => true
  | .error (.transfer peer _) => plan.offset + route.remote ≤ peer
  | .error _ => false

/-- The number of calls that got as far as a route. -/
def drawn (plan : Plan) (returned : List (Returned α)) (route : Route) : Nat :=
  returned.countP fun r => plan.reaches route r.answer

/-- The routes lead to different processes, in ascending order. -/
def Ascending (routes : List Route) : Prop := routes.Pairwise fun a b => a.remote < b.remote

theorem ascending_ofDistributions (rank : Rank) (own remote : Distribution) :
    Ascending (ofDistributions rank own remote).routes := by
  have hremote {globals : List Nat} {entry : Rank × List Nat} {route : Route}
      (h : route? globals entry = some route) : route.remote = entry.1 := by
    unfold route? at h
    dsimp only at h
    split at h
    next => cases h
    next => exact congrArg Route.remote (Option.some.inj h).symm
  have hascending : remote.entries.Pairwise fun a b => a.1 < b.1 :=
    List.pairwise_map.1 remote.ascending
  refine hascending.filterMap _ fun a b hlt r hr r' hr' => ?_
  rw [hremote hr, hremote hr']
  exact hlt

theorem key_inj {route' : Route} :
    plan.key me route = plan.key me route' ↔ route.remote = route'.remote := by
  simp [key]

/-- A message cannot be read if there is none, or if it is too short or too long. -/
theorem read_error {message : Option Bytes} {fault : Fault α}
    (h : plan.read dimension route message = .error fault) :
    (message = none ∧ fault = .transfer (plan.offset + route.remote) .noMessage) ∨
      ∃ bytes, message = some bytes ∧ bytes.length ≠ route.positions.length * dimension * 8 ∧
        fault = .transfer (plan.offset + route.remote)
          (.length (route.positions.length * dimension * 8) bytes.length) := by
  cases message with
  | none => exact .inl ⟨rfl, (Except.error.inj h).symm⟩
  | some bytes =>
    refine .inr ⟨bytes, rfl, ?_⟩
    rw [read, Endpoint.exactly] at h
    split at h
    next => cases h
    next hlength => exact ⟨hlength, (Except.error.inj h).symm⟩

theorem totalFrom_error {message : Route → Option Bytes} {fault : Fault α} :
    ∀ {routes : List Route} {v : Vec Double},
      plan.totalFrom dimension message routes v = .error fault →
        ∃ route ∈ routes, plan.read dimension route (message route) = .error fault := by
  intro routes
  induction routes with
  | nil => exact fun h => nomatch h
  | cons route routes ih =>
    intro v h
    cases hread : plan.read (α := α) dimension route (message route) with
    | error fault' =>
      rw [totalFrom, hread] at h
      obtain rfl := Except.error.inj h
      exact ⟨route, List.mem_cons_self, hread⟩
    | ok values =>
      rw [totalFrom, hread] at h
      obtain ⟨later, hlater, herror⟩ := ih h
      exact ⟨later, List.mem_cons_of_mem _ hlater, herror⟩

theorem totalFrom_congr {message message' : Route → Option Bytes} :
    ∀ {routes : List Route} {v : Vec Double}, (∀ route ∈ routes, message route = message' route) →
      plan.totalFrom (α := α) dimension message routes v =
        plan.totalFrom dimension message' routes v := by
  intro routes
  induction routes with
  | nil => exact fun _ => rfl
  | cons route routes ih =>
    intro v h
    rw [totalFrom, totalFrom, h route List.mem_cons_self]
    exact bind_congr fun values => ih fun later hlater => h later (List.mem_cons_of_mem _ hlater)

/-- Sums that lack no message do not change when more messages are there. -/
theorem totalFrom_mono {message message' : Route → Option Bytes} :
    ∀ {routes : List Route} {v : Vec Double},
      (∀ route ∈ routes, ∀ bytes, message route = some bytes → message' route = some bytes) →
      (∀ peer, plan.totalFrom (α := α) dimension message routes v ≠
        .error (.transfer peer .noMessage)) →
      plan.totalFrom (α := α) dimension message' routes v =
        plan.totalFrom dimension message routes v := by
  intro routes
  induction routes with
  | nil => exact fun _ _ => rfl
  | cons route routes ih =>
    intro v hmore hthere
    cases hmessage : message route with
    | none =>
      refine absurd ?_ (hthere (plan.offset + route.remote))
      rw [totalFrom, hmessage]
      rfl
    | some bytes =>
      rw [totalFrom, hmessage] at hthere
      rw [totalFrom, totalFrom, hmessage, hmore route List.mem_cons_self bytes hmessage]
      cases hread : plan.read (α := α) dimension route (some bytes) with
      | error => rfl
      | ok values =>
        rw [hread] at hthere
        exact ih (fun later hlater => hmore later (List.mem_cons_of_mem _ hlater)) hthere

/-! ## One call -/

theorem receive_read (route : Route) (box : Mailbox) :
    (Endpoint.member me size).receive (α := α) Double (plan.offset + route.remote) plan.tag
        (route.positions.length * dimension) box =
      (plan.read dimension route (box.queue (plan.key me route)).head?,
        (box.take (plan.key me route)).2) := by
  rw [← Mailbox.fst_take, Endpoint.receive, Endpoint.receiveWith, Endpoint.collect, key]
  cases box.take ⟨plan.offset + route.remote, me, plan.tag⟩ with
  | mk found box' =>
    cases found with
    | none => rfl
    | some bytes => rfl

/-- What a call does over several routes: it adds up the oldest messages, and takes one from each
process that it gets to. -/
structure Draws (plan : Plan) (me : Rank) (dimension : Nat) (routes : List Route) (v : Vec Double)
    (box : Mailbox) (answer : Except (Fault α) (Vec Double)) (box' : Mailbox) : Prop where
  sums : answer = plan.totalFrom dimension
    (fun route => (box.queue (plan.key me route)).head?) routes v
  there : ∀ route ∈ routes, plan.reaches route answer = true → box.queue (plan.key me route) ≠ []
  queue : ∀ route ∈ routes, box'.queue (plan.key me route) =
    if plan.reaches route answer = true then (box.queue (plan.key me route)).tail
    else box.queue (plan.key me route)
  others : ∀ k, (∀ route ∈ routes, k ≠ plan.key me route) → box'.queue k = box.queue k

/-- A call that fails over several routes fails at one of them. -/
theorem Draws.reaches_of_lt (h : Draws plan me dimension routes v box answer box')
    (hlt : ∀ later ∈ routes, route.remote < later.remote) : plan.reaches route answer = true := by
  cases hanswer : answer with
  | ok => rfl
  | error fault =>
    obtain ⟨later, hlater, hread⟩ := totalFrom_error (h.sums.symm.trans hanswer)
    have hle : plan.offset + route.remote ≤ plan.offset + later.remote :=
      Nat.add_le_add_left (Nat.le_of_lt (hlt later hlater)) _
    rcases read_error hread with ⟨-, rfl⟩ | ⟨bytes, -, -, rfl⟩
    · exact decide_eq_true hle
    · exact decide_eq_true hle

theorem collect_draws : ∀ {routes : List Route} {v : Vec Double} {box : Mailbox},
    Ascending routes →
      plan.collect (.member me size) dimension routes v box = .ok (answer, box') →
      (∀ peer, answer ≠ .error (.transfer peer .noMessage)) →
        Draws plan me dimension routes v box answer box' := by
  intro routes
  induction routes with
  | nil =>
    intro v box _ h _
    obtain ⟨rfl, rfl⟩ := Prod.mk.inj (Except.ok.inj h)
    exact ⟨rfl, nofun, nofun, fun _ _ => rfl⟩
  | cons route routes ih =>
    intro v box hascending h hthere
    obtain ⟨hlt, hascending⟩ := List.pairwise_cons.1 hascending
    have hdiffer : ∀ later ∈ routes, plan.key me later ≠ plan.key me route :=
      fun later hlater heq => Nat.ne_of_gt (hlt later hlater) (key_inj.1 heq)
    obtain ⟨peer, hpeer, h⟩ := bind_ok h
    obtain rfl : plan.offset + route.remote = peer := by
      unfold Plan.peer at hpeer
      split at hpeer
      next => exact Except.ok.inj hpeer
      next => cases hpeer
    rw [receive_read] at h
    -- The message of this route is taken, whatever it holds.
    have hothers (k : Key) (hk : k ≠ plan.key me route) :
        (box.take (plan.key me route)).2.queue k = box.queue k := by
      rw [Mailbox.queue_take, if_neg hk]
    cases hread : plan.read (α := α) dimension route
        (box.queue (plan.key me route)).head? with
    | error fault =>
      rw [hread] at h
      obtain ⟨rfl, rfl⟩ := Prod.mk.inj (Except.ok.inj h)
      have hmessage : ∃ cause, fault = .transfer (plan.offset + route.remote) cause ∧
          box.queue (plan.key me route) ≠ [] := by
        rcases read_error hread with ⟨-, rfl⟩ | ⟨bytes, hbytes, -, rfl⟩
        · exact absurd rfl (hthere _)
        · exact ⟨_, rfl, fun hnil => by rw [hnil] at hbytes; cases hbytes⟩
      obtain ⟨cause, rfl, hqueue⟩ := hmessage
      have hpast : ∀ later ∈ routes, plan.reaches later
          (.error (.transfer (plan.offset + route.remote) cause) :
            Except (Fault α) (Vec Double)) = false :=
        fun later hlater => decide_eq_false
          (Nat.not_le_of_lt (Nat.add_lt_add_left (hlt later hlater) _))
      refine ⟨by rw [totalFrom, hread]; rfl, fun later hlater hreaches => ?_,
        fun later hlater => ?_, fun k hk => hothers k (hk route List.mem_cons_self)⟩
      · rcases List.mem_cons.1 hlater with rfl | hlater
        · exact hqueue
        · rw [hpast later hlater] at hreaches
          cases hreaches
      · rcases List.mem_cons.1 hlater with rfl | hlater
        · rw [Mailbox.queue_take, if_pos rfl]
          exact (if_pos (decide_eq_true (Nat.le_refl _))).symm
        · rw [hpast later hlater, hothers _ (hdiffer later hlater)]
          rfl
    | ok values =>
      rw [hread] at h
      dsimp only at h
      split at h
      next => cases h
      next =>
        have hrest := ih hascending h hthere
        have hreaches : plan.reaches route answer = true := hrest.reaches_of_lt hlt
        have hqueue : box.queue (plan.key me route) ≠ [] := by
          intro hnil
          rw [hnil] at hread
          cases hread
        refine ⟨?_, fun later hlater hlate => ?_, fun later hlater => ?_, fun k hk => ?_⟩
        · rw [totalFrom, hread, ok_bind, hrest.sums]
          exact totalFrom_congr fun later hlater => by rw [hothers _ (hdiffer later hlater)]
        · rcases List.mem_cons.1 hlater with rfl | hlater
          · exact hqueue
          · exact hothers _ (hdiffer later hlater) ▸ hrest.there later hlater hlate
        · rcases List.mem_cons.1 hlater with rfl | hlater
          · rw [if_pos hreaches, hrest.others _ fun later hlater => (hdiffer later hlater).symm,
              Mailbox.queue_take, if_pos rfl]
          · rw [hrest.queue later hlater, hothers _ (hdiffer later hlater)]
        · rw [hrest.others k fun later hlater => hk later (List.mem_cons_of_mem _ hlater),
            hothers k (hk route List.mem_cons_self)]

theorem call_draws (hascending : Ascending plan.routes)
    (h : plan.call (.member me size) dimension box = some (answer, box')) :
    (∀ peer, answer ≠ .error (.transfer peer .noMessage)) ∧
      Draws plan me dimension plan.routes (List.replicate (plan.vertices * dimension) 0)
        box answer box' := by
  unfold call at h
  split at h
  next => cases h
  next result hwaits hreceive =>
    obtain rfl := Option.some.inj h
    have hthere : ∀ peer, answer ≠ .error (.transfer peer .noMessage) :=
      fun peer hanswer => hwaits peer box' (by rw [hanswer])
    obtain ⟨-, -, hcollect⟩ := bind_ok hreceive
    exact ⟨hthere, collect_draws hascending hcollect hthere⟩
  next => cases h

/-! ## Runs -/

/-- How far a run has come when these are the messages that ever arrived under each key. The calls
before one say which message from a process it reads, and all calls together how many are gone. -/
structure Drawn (plan : Plan) (me : Rank) (arrived : Key → List Bytes) (s : Course α) : Prop where
  answers : ∀ n r, s.returned[n]? = some r → r.answer = plan.total r.dimension
    fun route => (arrived (plan.key me route))[plan.drawn (s.returned.take n) route]?
  there : ∀ r ∈ s.returned, ∀ peer, r.answer ≠ .error (.transfer peer .noMessage)
  waiting : ∀ route ∈ plan.routes, s.box.queue (plan.key me route) =
    (arrived (plan.key me route)).drop (plan.drawn s.returned route)
  counted : ∀ route ∈ plan.routes,
    plan.drawn s.returned route ≤ (arrived (plan.key me route)).length
  others : ∀ k, (∀ route ∈ plan.routes, k ≠ plan.key me route) → s.box.queue k = arrived k

variable {arrived : Key → List Bytes} {s s' : Course α} {events : List Event}

theorem drawn_concat (returned : List (Returned α)) (r : Returned α) (route : Route) :
    plan.drawn (returned ++ [r]) route =
      plan.drawn returned route + if plan.reaches route r.answer = true then 1 else 0 := by
  rw [drawn, List.countP_append, List.countP_singleton]
  rfl

/-- A message more changes nothing about the calls before it. -/
theorem Drawn.arrival (h : Drawn plan me arrived s) (key : Key) (bytes : Bytes) :
    Drawn plan me (fun k => arrived k ++ if key = k then [bytes] else [])
      { s with box := s.box.put key bytes } where
  answers n r hr := by
    have hanswer := h.answers n r hr
    refine hanswer.trans (totalFrom_mono (fun route _ b hb => ?_) fun peer => ?_).symm
    · rw [List.getElem?_append_left (List.getElem?_eq_some_iff.1 hb).1, hb]
    · exact fun heq => h.there r (List.mem_of_getElem? hr) peer (hanswer.trans heq)
  there := h.there
  waiting route hroute := by
    rw [Mailbox.queue_put, h.waiting route hroute,
      List.drop_append_of_le_length (h.counted route hroute)]
  counted route hroute := Nat.le_trans (h.counted route hroute) (by simp)
  others k hk := by rw [Mailbox.queue_put, h.others k hk]

/-- A call reads the oldest messages that are left, and draws those up to the one it fails at. -/
theorem Drawn.call (h : Drawn plan me arrived s) (hascending : Ascending plan.routes)
    (hcall : plan.call (.member me size) dimension s.box = some (answer, box')) :
    Drawn plan me arrived ⟨box', s.returned ++ [⟨dimension, answer⟩]⟩ := by
  obtain ⟨hthere, hdraws⟩ := call_draws hascending hcall
  refine ⟨fun n r hr => ?_, fun r hr => ?_, fun route hroute => ?_, fun route hroute => ?_,
    fun k hk => ?_⟩
  · rcases Nat.lt_or_ge n s.returned.length with hold | hnew
    · rw [List.getElem?_append_left hold] at hr
      rw [List.take_append_of_le_length (Nat.le_of_lt hold)]
      exact h.answers n r hr
    · rw [List.getElem?_append_right hnew, List.getElem?_singleton] at hr
      split at hr
      next hzero =>
        obtain rfl := Option.some.inj hr
        have hn : n = s.returned.length := by omega
        rw [hn, List.take_left, hdraws.sums]
        refine totalFrom_congr fun route hroute => ?_
        rw [h.waiting route hroute, List.head?_drop]
      next => cases hr
  · rcases List.mem_append.1 hr with hr | hr
    · exact h.there r hr
    · rw [List.mem_singleton.1 hr]
      exact hthere
  · rw [hdraws.queue route hroute, h.waiting route hroute, drawn_concat]
    split
    next => rw [List.tail_drop]
    next => rw [Nat.add_zero]
  · rw [drawn_concat]
    split
    next hreaches =>
      have hqueue := hdraws.there route hroute hreaches
      rw [h.waiting route hroute] at hqueue
      exact Nat.lt_of_not_le fun hle => hqueue (List.drop_eq_nil_of_le hle)
    next => exact h.counted route hroute
  · rw [hdraws.others k hk, h.others k hk]

theorem drawn_nil (plan : Plan) (me : Rank) (box : Mailbox) :
    Drawn (α := α) plan me box.queue { box } :=
  ⟨nofun, nofun, fun _ _ => rfl, fun _ _ => Nat.zero_le _, fun _ _ => rfl⟩

theorem run_drawn (hascending : Ascending plan.routes) :
    ∀ {s : Course α}, plan.run (.member me size) events { box } = some s →
      Drawn plan me (fun k => box.queue k ++ arrivals events k) s := by
  induction events using List.reverseRecOn with
  | nil =>
    intro s h
    obtain rfl := Option.some.inj h
    simpa [arrivals] using drawn_nil plan me box
  | append_singleton events event ih =>
    intro s' h
    rw [run, List.foldlM_append] at h
    obtain ⟨s, hs, hlast⟩ := Option.bind_eq_some_iff.1 h
    have hdrawn := ih hs
    rw [List.foldlM_cons] at hlast
    obtain ⟨_, hstep, hend⟩ := Option.bind_eq_some_iff.1 hlast
    obtain rfl := Option.some.inj hend
    cases event with
    | arrival key bytes =>
      obtain rfl := Option.some.inj hstep
      simpa [arrivals, List.append_assoc] using hdrawn.arrival key bytes
    | call dimension =>
      rw [step] at hstep
      obtain ⟨⟨answer, box'⟩, hcall, hnext⟩ := Option.bind_eq_some_iff.1 hstep
      obtain rfl := Option.some.inj hnext
      simpa [arrivals] using hdrawn.call hascending hcall

/-! ## Calls that fail -/

theorem Ascending.le_last {last : Route} (h : Ascending routes)
    (hlast : routes.getLast? = some last) (hroute : route ∈ routes) :
    route.remote ≤ last.remote := by
  obtain ⟨before, rfl⟩ := List.getLast?_eq_some_iff.1 hlast
  rcases List.mem_append.1 hroute with hbefore | hlast
  · exact Nat.le_of_lt
      ((List.pairwise_append.1 h).2.2 route hbefore last (List.mem_singleton_self last))
  · exact Nat.le_of_eq (congrArg Route.remote (List.mem_singleton.1 hlast))

/-- What holds after every run. A call fails at a process whose message has the wrong length
(`failed`), and has taken a message from every process if it did not fail or failed at the last one
(`whole`). A call reads from a process the message of its own round if all calls before it got to
that process (`inStep`). The next call draws from the queues as they are (`next`). -/
structure Rounds (plan : Plan) (me size : Nat) (arrived : Key → List Bytes) (s : Course α) : Prop
    extends Drawn plan me arrived s where
  failed : ∀ n r fault, s.returned[n]? = some r → r.answer = .error fault →
    ∃ route ∈ plan.routes, ∃ bytes,
      (arrived (plan.key me route))[plan.drawn (s.returned.take n) route]? = some bytes ∧
      bytes.length ≠ route.positions.length * r.dimension * 8 ∧
      fault = .transfer (plan.offset + route.remote)
        (.length (route.positions.length * r.dimension * 8) bytes.length)
  whole : ∀ r ∈ s.returned, (∀ route ∈ plan.routes, plan.reaches route r.answer = true) ↔
    ∀ fault, r.answer = .error fault → ∃ last cause, plan.routes.getLast? = some last ∧
      fault = .transfer (plan.offset + last.remote) cause
  inStep : ∀ n ≤ s.returned.length, ∀ route ∈ plan.routes,
    plan.drawn (s.returned.take n) route = n ↔
      ∀ r ∈ s.returned.take n, plan.reaches route r.answer = true
  next : ∀ (dimension : Nat) (answer : Except (Fault α) (Vec Double)) (box' : Mailbox),
    plan.call (.member me size) dimension s.box = some (answer, box') →
      Draws plan me dimension plan.routes (List.replicate (plan.vertices * dimension) 0) s.box
        answer box'

theorem Drawn.failed (h : Drawn plan me arrived s) {n : Nat} {r : Returned α} {fault : Fault α}
    (hr : s.returned[n]? = some r) (hfault : r.answer = .error fault) :
    ∃ route ∈ plan.routes, ∃ bytes,
      (arrived (plan.key me route))[plan.drawn (s.returned.take n) route]? = some bytes ∧
      bytes.length ≠ route.positions.length * r.dimension * 8 ∧
      fault = .transfer (plan.offset + route.remote)
        (.length (route.positions.length * r.dimension * 8) bytes.length) := by
  obtain ⟨route, hroute, hread⟩ := totalFrom_error ((h.answers n r hr).symm.trans hfault)
  rcases read_error hread with ⟨-, rfl⟩ | hlength
  · exact absurd hfault (h.there r (List.mem_of_getElem? hr) _)
  · exact ⟨route, hroute, hlength⟩

theorem Drawn.whole (h : Drawn plan me arrived s) (hascending : Ascending plan.routes)
    {r : Returned α} (hr : r ∈ s.returned) :
    (∀ route ∈ plan.routes, plan.reaches route r.answer = true) ↔
      ∀ fault, r.answer = .error fault → ∃ last cause, plan.routes.getLast? = some last ∧
        fault = .transfer (plan.offset + last.remote) cause := by
  constructor
  · intro hreaches fault hfault
    obtain ⟨n, hn⟩ := List.getElem?_of_mem hr
    obtain ⟨route, hroute, bytes, -, -, rfl⟩ := h.failed hn hfault
    have hlast : plan.routes.getLast? = some (plan.routes.getLast (List.ne_nil_of_mem hroute)) :=
      List.getLast?_eq_some_getLast _
    -- The call got to the last process, so that is where it failed.
    have hle := hreaches _ (List.getLast_mem (List.ne_nil_of_mem hroute))
    rw [hfault] at hle
    have hge := hascending.le_last hlast hroute
    exact ⟨_, _, hlast, by
      rw [Nat.le_antisymm hge (Nat.le_of_add_le_add_left (of_decide_eq_true hle))]⟩
  · intro hlast route hroute
    cases hanswer : r.answer with
    | ok => rfl
    | error fault =>
      obtain ⟨last, cause, hlast, rfl⟩ := hlast fault hanswer
      exact decide_eq_true (Nat.add_le_add_left (hascending.le_last hlast hroute) _)

theorem drawn_take_eq_iff {returned : List (Returned α)} {n : Nat} (hn : n ≤ returned.length) :
    plan.drawn (returned.take n) route = n ↔
      ∀ r ∈ returned.take n, plan.reaches route r.answer = true := by
  have hlength : (returned.take n).length = n := by rw [List.length_take, Nat.min_eq_left hn]
  rw [← List.countP_eq_length, hlength]
  rfl

/-- Any plan, any messages already there, any messages to come and any calls: as long as the calls
return, this is what they do. -/
theorem run_rounds (rank : Rank) (own remote : Distribution) (offset : Nat) (tag : Tag)
    (me size : Nat) (box : Mailbox) (events : List Event) {s : Course α}
    (h : ((ofDistributions rank own remote).under offset tag).run (.member me size) events
      { box } = some s) :
    Rounds ((ofDistributions rank own remote).under offset tag) me size
      (fun k => box.queue k ++ arrivals events k) s :=
  have hascending : Ascending ((ofDistributions rank own remote).under offset tag).routes :=
    ascending_ofDistributions rank own remote
  have hdrawn := run_drawn hascending h
  { hdrawn with
    failed := fun _ _ _ => hdrawn.failed
    whole := fun _ => hdrawn.whole hascending
    inStep := fun _ hn _ _ => drawn_take_eq_iff hn
    next := fun _ _ _ hcall => (call_draws hascending hcall).2 }

/-- A process whose only vertex two other processes hold too. -/
def twofold : Plan := ofDistributions 0 ⟨[(0, [0])], by decide⟩ ⟨[(1, [0]), (2, [0])], by decide⟩

/-- Two rounds of messages for it, one from each process in each round. The first one is too
long. -/
def tooLong : List Event :=
  [.arrival ⟨1, 0, 0x50⟩ (encodeAll [(⟨1⟩ : Double), ⟨2⟩]),
    .arrival ⟨2, 0, 0x50⟩ (encodeAll [(⟨5⟩ : Double)]), .call 1,
    .arrival ⟨1, 0, 0x50⟩ (encodeAll [(⟨10⟩ : Double)]),
    .arrival ⟨2, 0, 0x50⟩ (encodeAll [(⟨7⟩ : Double)]), .call 1]

theorem twofold_eq : twofold.under 0 0x50 = ⟨0, 1, [⟨1, [0]⟩, ⟨2, [0]⟩], 0, 0x50⟩ := by
  have hshared : sharedGlobals [0] [0] = [0] := by
    show (List.mergeSort [0] (· ≤ ·)).eraseDups = [0]
    rw [List.mergeSort_singleton]
    rfl
  have hroute (remote : Rank) : route? [0] (remote, [0]) = some ⟨remote, [0]⟩ := by
    rw [route?, hshared]
    rfl
  show Plan.mk 0 1 ([(1, [0]), (2, [0])].filterMap (route? [0])) 0 0x50 = _
  rw [List.filterMap_cons_some (hroute 1), List.filterMap_cons_some (hroute 2), List.filterMap_nil]

/-- The second call adds the value of process 2 for the first round to that of process 1 for the
second, and the value of process 2 for the second round is left. -/
theorem run_rounds_tooLong : ∃ s, (twofold.under 0 0x50).run (.member 0 3) tooLong { box := {} } =
      some s ∧
    Rounds (α := Double) (twofold.under 0 0x50) 0 3
      (fun k => Mailbox.queue {} k ++ arrivals tooLong k) s ∧
    s.returned.map Returned.answer =
      [.error (.transfer 1 (.length 8 16)), .ok [0 + ⟨10⟩ + ⟨5⟩]] ∧
    s.box.queue ⟨2, 0, 0x50⟩ = [encodeAll [(⟨7⟩ : Double)]] := by
  have hrun : ∃ s : Course Double, (twofold.under 0 0x50).run (.member 0 3) tooLong { box := {} } =
        some s ∧
      s.returned.map Returned.answer =
        [.error (.transfer 1 (.length 8 16)), .ok [0 + ⟨10⟩ + ⟨5⟩]] ∧
      s.box.queue ⟨2, 0, 0x50⟩ = [encodeAll [(⟨7⟩ : Double)]] := by
    rw [twofold_eq]
    exact ⟨_, rfl, rfl, rfl⟩
  obtain ⟨s, hs, hanswers, hqueue⟩ := hrun
  exact ⟨s, hs, run_rounds 0 _ _ 0 0x50 0 3 {} tooLong hs, hanswers, hqueue⟩

end Plan

end Cosimulation.Exchange
