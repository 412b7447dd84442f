import OnionTunnel.Message.Frame
import OnionTunnel.Node.Owner

/-!
# A node as a hop

A hop peels its layer off every cell. A link that has been extended passes the rest on; otherwise
the rest is a command: to extend the link, or to take a payload. What comes of it goes back in the
hop's layer.
-/

namespace OnionTunnel.Node

/-- Accepts a handshake from the owner of a hostkey: the new link and the handshake to return. -/
def acceptHandshake (hostkey handshake : Bytes) : Action (UInt32 × Bytes) := do
  let peer := Identity.ofHostkey hostkey
  let (id, returned) ← acceptSession hostkey handshake
  modify fun n => { n with links := n.links.accept id peer }
  modify (updateDirectory (·.bindSession id peer))
  return (id, returned)

/-- Records where a link goes on, once the next hop has answered. If the link is gone or goes on
already, the next hop is told to drop what it has just opened. -/
def joinNext (id : UInt32) (next : Downstream) : Action Unit := do
  match (← get).links.extend id next with
  | .ok links => modify fun n => { n with links := links }
  | .error e =>
    dropLink next.address next.link
    throw e

/-- Extends a link by the hop that accepts the handshake: what goes back to the owner. -/
def extendLink (id : UInt32) (nextHop : Address) (incoming : Bytes) : Action Bytes := do
  match ← ofFrame (Message.decode incoming) with
  | .incomingHandshake1 hostkey handshake =>
    let (link, returned) ← deliverHandshake nextHop hostkey handshake
    joinNext id ⟨nextHop, link⟩
    ofFrame (Message.sessionHandshake2 link returned).encode
  | other => throw (.unexpectedCommand other.kind)

/-- Hands a payload to the sink. -/
def deliver (d : Delivery) : Action Bytes := do
  let (reply, sink) := (← get).sink.deliver d
  modify fun n => { n with sink := sink }
  match reply with
  | .ok reply => return reply
  | .error e => throw e

/-- Does what the last hop of a route is told. -/
def execute (id : UInt32) (peer : Identity) (command : Bytes) : Action Bytes := do
  match ← ofFrame (Message.decode command) with
  | .tunnelExtend nextHop incoming => extendLink id nextHop incoming
  | .tunnelData link payload =>
    if link = endLink then deliver ⟨id, peer, payload⟩ else throw (.unexpectedCommand .tunnelData)
  | other => throw (.unexpectedCommand other.kind)

/-- Handles a cell on a link: what goes back on it. -/
def handleCell (id : UInt32) (data : Bytes) : Action Bytes := do
  match (← get).links.get? id with
  | none => throw (.linkNotFound id)
  | some link =>
    let peeled ← decryptLayers [id] data
    let reply ← match link.downstream? with
      | some next => sendCell next.address next.link peeled
      | none => execute id link.peer peeled
    encryptLayers [id] reply

/-- Drops a link with its session, and passes that on. -/
def handleDestroy (id : UInt32) : Program Node Unit := do
  match (← get).links.get? id with
  | none => return
  | some link =>
    modify fun n => { n with links := n.links.erase id }
    closeSession id
    match link.downstream? with
    | some next => dropLink next.address next.link
    | none => return

end OnionTunnel.Node
