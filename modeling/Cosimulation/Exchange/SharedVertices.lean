import Cosimulation.Data.OrderedMap
import Cosimulation.Exchange.Mailbox
import Cosimulation.Vec

/-!
# Exchange of shared vertices

Two participants have spread the same vertices over their processes, each in its own way; a vertex
is known on both sides by its global index. A `Plan` says, for one process, which of its vertices
each remote process holds too. Values travel in ascending order of the global index, which both
sides know, so that no positions have to be sent.

A process that receives starts from zero and adds what each remote process sends, in ascending order
of the remote ranks. A vertex held by several of them gets the sum, one held by none stays zero.
-/

namespace Cosimulation.Exchange

/-- The global indices each process of a participant holds, in the order of its vertices. -/
abbrev Distribution := OrderedMap (List Nat)

/-- The vertices shared with one remote process, in the order in which their values travel. -/
structure Route where
  remote : Rank
  positions : List Nat
  deriving Repr, DecidableEq

/-- With whom a process exchanges the values of which vertices. -/
structure Plan where
  rank : Rank
  /-- The number of vertices of the process. -/
  vertices : Nat
  routes : List Route
  /-- Remote rank `r` is reached at rank `offset + r`. -/
  offset : Nat := 0
  tag : Tag := 0x50
  deriving Repr, DecidableEq

/-- The last position of a global index among those of a process. -/
def lastPosition? (globals : List Nat) (g : Nat) : Option Nat :=
  (globals.zipIdx.filter fun e => e.1 == g).getLast?.map Prod.snd

/-- The global indices that two processes share, ascending, each once. -/
def sharedGlobals (mine theirs : List Nat) : List Nat :=
  ((theirs.filter fun g => mine.contains g).mergeSort (· ≤ ·)).eraseDups

/-- The route to a remote process; `none` if nothing is shared with it. -/
def route? (globals : List Nat) (remote : Rank × List Nat) : Option Route :=
  let positions := (sharedGlobals globals remote.2).filterMap (lastPosition? globals)
  if positions.isEmpty then none else some ⟨remote.1, positions⟩

namespace Plan

/-- The plan of one process, from how both participants are spread. -/
def ofDistributions (rank : Rank) (own remote : Distribution) : Plan :=
  let globals := (own.find? rank).getD []
  { rank, vertices := globals.length, routes := remote.entries.filterMap (route? globals) }

/-- The remote processes with which vertices are shared, ascending. -/
def connected (plan : Plan) : List Rank := plan.routes.map Route.remote

variable {α : Type}

/-- Insists on one value for each component of each vertex. -/
def checkLength (plan : Plan) (length dimension : Nat) : Except (Violation α) Unit := do
  let expected ← scalarCount plan.vertices dimension
  if length = expected then .ok ()
  else .error (.exchangedLength plan.rank plan.vertices dimension)

/-- The rank at which a remote process is reached. -/
def peer (plan : Plan) (route : Route) : Except (Violation α) Rank :=
  if plan.offset + route.remote < UInt64.size then .ok (plan.offset + route.remote)
  else .error .bounds

/-- The values of the vertices of a route, in the order in which they travel. -/
def gather (route : Route) (values : Vec Double) (dimension : Nat) : Vec Double :=
  route.positions.flatMap fun i => (values.drop (i * dimension)).take dimension

/-- Sends the values of all shared vertices. -/
def send (plan : Plan) (e : Endpoint) (values : Vec Double) (dimension : Nat) (box : Mailbox) :
    Except (Violation α) Mailbox := do
  plan.checkLength values.length dimension
  plan.routes.foldlM
    (fun box route => do
      return e.send (← plan.peer route) plan.tag (gather route values dimension) box)
    box

/-- Adds values to the entries of a vector from an offset on. -/
def addFrom (offset : Nat) (values v : Vec Double) : Vec Double :=
  v.take offset ++ Vec.add (v.drop offset) values ++ v.drop (offset + values.length)

/-- Adds the values of a message at the positions of a route. -/
def deposit (dimension : Nat) : List Nat → Vec Double → Vec Double → Vec Double
  | [], _, v => v
  | i :: is, values, v =>
    deposit dimension is (values.drop dimension)
      (addFrom (i * dimension) (values.take dimension) v)

/-- Receives and adds the contributions of several routes, up to the first that fails. -/
def collect (plan : Plan) (e : Endpoint) (dimension : Nat) :
    List Route → Vec Double → Mailbox →
      Except (Violation α) (Except (Fault α) (Vec Double) × Mailbox)
  | [], v, box => .ok (.ok v, box)
  | route :: routes, v, box => do
    let peer ← plan.peer route
    match e.receive Double peer plan.tag (route.positions.length * dimension) box with
    | (.error fault, box') => .ok (.error fault, box')
    | (.ok values, box') =>
      if dimension = 0 then .error .bounds
      else plan.collect e dimension routes (deposit dimension route.positions values v) box'

/-- Receives the sums of all contributions into a vector of the given length. -/
def receive (plan : Plan) (e : Endpoint) (length dimension : Nat) (box : Mailbox) :
    Except (Violation α) (Except (Fault α) (Vec Double) × Mailbox) := do
  plan.checkLength length dimension
  plan.collect e dimension plan.routes (List.replicate length 0) box

end Plan

end Cosimulation.Exchange
