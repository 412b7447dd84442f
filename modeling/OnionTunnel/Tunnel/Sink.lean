import OnionTunnel.Identity
import OnionTunnel.Tunnel.Error

/-!
# Sinks

A sink takes the payloads that end at a node. What it answers goes back through the tunnel, and may
depend on all that was handed to it before. It keeps the deliveries that it answers.
-/

namespace OnionTunnel

/-- A payload that ends here, the link that it came on, and who opened that link. -/
structure Delivery where
  link : UInt32
  source : Identity
  payload : Bytes
  deriving DecidableEq

/-- How a delivery is answered after those handed over before it. Deliveries stand oldest first. -/
structure Sink where
  answer : List Delivery → Delivery → Except TunnelError Bytes
  /-- Whether this is a queue, which is of use only while somebody reads it. -/
  isQueue : Bool
  /-- The deliveries that were answered and not yet taken away. -/
  kept : List Delivery
  /-- Every delivery, answered or refused. -/
  handed : List Delivery

namespace Sink

/-- A sink that answers each delivery on its own. -/
def ofAnswer (answer : Delivery → Except TunnelError Bytes) (isQueue : Bool) : Sink :=
  ⟨fun _ => answer, isQueue, [], []⟩

/-- Hands a delivery over. -/
def deliver (s : Sink) (d : Delivery) : Except TunnelError Bytes × Sink :=
  let noted := { s with handed := s.handed ++ [d] }
  match s.answer s.handed d with
  | .ok reply => (.ok reply, { noted with kept := s.kept ++ [d] })
  | .error e => (.error e, noted)

/-- Forgets what was kept. -/
def drain (s : Sink) : Sink := { s with kept := [] }

/-- The sink that answers with `echo:` and the payload. -/
def echo : Sink := ofAnswer (fun d => .ok (Bytes.ofText "echo:" ++ d.payload)) false

/-- The sink that fails with a text. -/
def refusing (text : String) : Sink := ofAnswer (fun _ => .error (.delivery text)) false

/-- The sink that queues deliveries and answers with no bytes. -/
def queue : Sink := ofAnswer (fun _ => .ok []) true

/-- The sink once nobody reads its queue any more. -/
def dropReader (s : Sink) : Sink :=
  if s.isQueue then
    { s with answer := (refusing "receiver dropped").answer, isQueue := false, kept := [] }
  else s

end Sink

end OnionTunnel
