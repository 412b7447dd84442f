import OnionTunnel.Node.Basic

/-!
# A node's own sessions

The tunnels of a node have their sessions started, accepted, confirmed, used and closed by the
node's session service. Each request has one kind of reply; any other is an error.
-/

namespace OnionTunnel.Node

/-- Sends a request to the node's session service. -/
def askSessions (m : Message) : Action Message := do
  request none (← get).sessionService m

/-- Starts a session with the owner of a hostkey: its number and the handshake to deliver. -/
def startSession (hostkey : Bytes) : Action (UInt32 × Bytes) := do
  match ← askSessions (.sessionStart hostkey) with
  | .sessionHandshake1 id handshake => return (id, handshake)
  | other => throw (.ofReply .sessionStart other)

/-- Accepts a handshake: the number of the session and the handshake to return. -/
def acceptSession (hostkey handshake : Bytes) : Action (UInt32 × Bytes) := do
  match ← askSessions (.incomingHandshake1 hostkey handshake) with
  | .sessionHandshake2 id handshake => return (id, handshake)
  | other => throw (.ofReply .incomingHandshake1 other)

/-- Confirms a session with the handshake that came back. -/
def confirmSession (id : UInt32) (handshake : Bytes) : Action Unit := do
  match ← askSessions (.incomingHandshake2 id handshake) with
  | .sessionConfirmed => return
  | other => throw (.ofReply .incomingHandshake2 other)

/-- A number for a request for layers; the numbers come round again. -/
def nextRequestId : Action UInt16 :=
  modifyGet fun n => (n.nextRequest, { n with nextRequest := n.nextRequest + 1 })

/-- The payload of a reply that carries the number of its request. -/
def matching (expected actual : UInt16) (payload : Bytes) : Action Bytes :=
  if expected = actual then return payload else throw (.requestMismatch expected actual)

/-- Puts on one layer per session. -/
def encryptLayers (ids : List UInt32) (payload : Bytes) : Action Bytes := do
  let number ← nextRequestId
  match ← askSessions (.layerEncrypt number ids payload) with
  | .layerEncrypted actual layered => matching number actual layered
  | other => throw (.ofReply .layerEncrypt other)

/-- Peels one layer per session. -/
def decryptLayers (ids : List UInt32) (payload : Bytes) : Action Bytes := do
  let number ← nextRequestId
  match ← askSessions (.layerDecrypt number ids payload) with
  | .layerDecrypted actual text => matching number actual text
  | other => throw (.ofReply .layerDecrypt other)

/-- Forgets who holds the other end of a session, and closes it. -/
def closeSession (id : UInt32) : Program Node Unit := do
  modify (updateDirectory (·.forgetSession id))
  notify none (← get).sessionService (.sessionClose id)

end OnionTunnel.Node
