import OnionTunnel.Network.Timed
import OnionTunnel.Network.Responder
import OnionTunnel.Node.Service

/-!
# Networks

In a network of `n` nodes, the services of the nodes and responders answer at addresses. A message
is written and read as a frame on its way there, and so is the reply on its way back.

To answer, a node may send messages on. `exchange` follows them to a depth and is stuck beyond it.
-/

namespace OnionTunnel

/-- A service of one of the nodes. -/
structure ServiceOf (n : Nat) where
  owner : Fin n
  service : Service
  deriving DecidableEq

/-- What answers at an address. -/
inductive Endpoint (n : Nat) where
  | service (s : ServiceOf n)
  | responder (r : Responder (ServiceOf n))

/-- The nodes, what answers where, and what the responders have received, oldest first. -/
structure Network (n : Nat) where
  nodes : Vector Node n
  endpoints : Table Address (Endpoint n)
  received : Table Address (List Message)

namespace Network

variable {n : Nat} {α : Type}

/-- One node. -/
def node (net : Network n) (i : Fin n) : Node := net.nodes[i]

/-- Changes one node. -/
def setNode (net : Network n) (i : Fin n) (node : Node) : Network n :=
  { net with nodes := net.nodes.set i node }

/-- Has something answer at an address, instead of what did before. -/
def register (net : Network n) (a : Address) (e : Endpoint n) : Network n :=
  { net with endpoints := net.endpoints.insert a e, received := net.received.erase a }

/-- Has nothing answer at an address. -/
def unregister (net : Network n) (a : Address) : Network n :=
  { net with endpoints := net.endpoints.erase a }

/-- The network of nodes whose services answer at the given addresses. -/
def ofNodes (nodes : Vector Node n) (place : Fin n → Service → Address) : Network n :=
  (List.finRange n).foldl
    (fun net i => Service.all.foldl
      (fun net s => net.register (place i s) (.service ⟨i, s⟩)) net)
    ⟨nodes, .empty, .empty⟩

/-- What the responder at an address has received. -/
def receivedAt (net : Network n) (a : Address) : List Message :=
  (net.received.get? a).getD []

/-- Forgets what the responder at an address has received. -/
def forgetReceived (net : Network n) (a : Address) : Network n :=
  { net with received := net.received.erase a }

/-- Notes a message that a responder has received. -/
def note (net : Network n) (a : Address) (m : Message) : Network n :=
  { net with received := net.received.insert a (net.receivedAt a ++ [m]) }

/-- What happens in a network. -/
abbrev Activity (n : Nat) := Timed (Network n)

/-- How a message is sent. -/
abbrev Sender (n : Nat) := Address → Message → Activity n Outcome

/-- What comes of an exchange; past the limit, that is a timeout. -/
def limited (limit : Option Duration) (p : Activity n Outcome) : Activity n Outcome :=
  match limit with
  | none => p
  | some d => do return (← p.within d.nanoseconds).getD (.error (.timeout d))

/-- A node's program, as it happens in the network. -/
def perform (sender : Sender n) (i : Fin n) : Program Node α → Activity n α
  | .done a => .done a
  | .read k => .read fun now net => perform sender i (k now (net.node i))
  | .write node p => .read fun _ net => .write (net.setNode i node) (perform sender i p)
  | .send dest m limit k => (limited limit (sender dest m)).bind fun r => perform sender i (k r)

/-- Answers a message by a service. -/
def answerService (sender : Sender n) (s : ServiceOf n) (m : Message) : Activity n (Option Message) :=
  perform sender s.owner (Node.answer s.service m)

/-- The next queued answer of the responder at an address. -/
def dequeueAt (a : Address) : Activity n (Option Message) := do
  match (← Timed.look).endpoints.get? a with
  | some (.responder r) =>
    let (reply, r) := r.dequeue
    Timed.change fun net => { net with endpoints := net.endpoints.insert a (.responder r) }
    return reply
  | _ => return none

/-- Answers a message by the responder at an address. -/
def answerResponder (sender : Sender n) (a : Address) (r : Responder (ServiceOf n)) (m : Message) :
    Activity n (Option Message) := do
  Timed.change (·.note a m)
  if 0 < r.delay.nanoseconds then Timed.sleep r.delay
  match r.decide m with
  | .reply reply => return reply
  | .pass s => answerService sender s m
  | .next => dequeueAt a

/-- Answers a message by what is at an address. -/
def answer (sender : Sender n) (a : Address) (e : Endpoint n) (m : Message) :
    Activity n (Option Message) :=
  match e with
  | .service s => answerService sender s m
  | .responder r => answerResponder sender a r m

/-- Sends a message to an address and brings the reply back. What is sent on meanwhile is followed
to a depth. -/
def exchange : Nat → Sender n
  | 0, _, _ => .stuck
  | depth + 1, dest, m => do
    match (← Timed.look).endpoints.get? dest with
    | none => return .error (.refused dest)
    | some e =>
      match m.transmit with
      | .error fault => return .error fault
      | .ok arrived =>
        match ← answer (exchange depth) dest e arrived with
        | none => return .ok none
        | some reply => return reply.transmit.map some

/-- A depth beyond which nothing is sent on: each cell that is passed on is shorter than the one
before, and each link that is dropped on the way is gone. -/
def depth (net : Network n) : Nat :=
  2 * maxFrame + net.nodes.toList.foldl (fun links node => links + node.links.size) 0

/-- What a node does, with all that it sends followed to the end. -/
def act (i : Fin n) (p : Program Node α) : Activity n α := do
  perform (exchange (← Timed.look).depth) i p

/-- Sends a message from outside and waits for the reply. -/
def request (dest : Address) (m : Message) : Activity n (Except FrameError Message) := do
  match ← exchange (← Timed.look).depth dest m with
  | .ok (some reply) => return .ok reply
  | .ok none => return .error .closed
  | .error e => return .error e

/-- Sends a message from outside and waits for no reply. -/
def post (dest : Address) (m : Message) : Activity n (Except FrameError Unit) := do
  return (← exchange (← Timed.look).depth dest m).map fun _ => ()

end Network

end OnionTunnel
